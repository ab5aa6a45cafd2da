import ConfigSource.Log.Script
import ConfigSource.Proofs.Log.Lines

/-!
# Families of loggers

The loggers of a tree differ in what was bound to them, and in nothing else. The **lineage** of a
logger is the list of the contexts that were bound from the root down to it, each with the instant
at which that was done. Binding them one after the other to what the root was made from gives the
very logger (`ConfigSource.Log.Logger.descend`). This is what every step on a tree keeps
(`ConfigSource.Log.Family.isGrownFrom_step`), so it holds after all steps, in whatever order the
loggers of the tree are made and used (`ConfigSource.Log.Family.isGrownFrom_after`).

A **family** is a tree with the lineages of its loggers (`ConfigSource.Log.Family`). The tree does
not look at them.
-/

namespace ConfigSource

namespace Log

/-- A context that was bound, and when. -/
structure Binding where
  /-- The instant. -/
  instant : Int
  /-- The context. -/
  context : Value

/-- The logger with several contexts more, bound one after the other. -/
def Logger.descend (l : Logger) (lineage : List Binding) : Except Value Logger :=
  lineage.foldlM (fun l b => l.child b.instant b.context) l

theorem Logger.descend_cons (l : Logger) (b : Binding) (lineage : List Binding) :
    l.descend (b :: lineage)
      = (l.child b.instant b.context).bind fun made => made.descend lineage := rfl

theorem Logger.descend_concat (l : Logger) (lineage : List Binding) (b : Binding) :
    l.descend (lineage ++ [b])
      = (l.descend lineage).bind fun made => made.child b.instant b.context := by
  rw [descend, List.foldlM_append]
  refine congrArg (Except.bind _) (funext fun made => ?_)
  rw [List.foldlM_cons]
  cases made.child b.instant b.context <;> rfl

/-- What was made of a result was made of one that is there. -/
theorem exists_of_map_eq_ok {α β : Type} {x : Except Value α} {f : α → β} {b : β}
    (h : x.map f = .ok b) : ∃ a, x = .ok a ∧ f a = b := by
  cases x with
  | error e => cases h
  | ok a => exact ⟨a, rfl, Except.ok.inj h⟩

/-- A child is its parent with the pieces of one context more. -/
theorem Logger.exists_pieces_of_child {threshold : Threshold} {style : CauseStyle}
    {contexts : List Piece} {made : Logger} {now : Int} {context : Value}
    (h : (bound threshold style contexts).child now context = .ok made) :
    ∃ more, contextPieces style now context = .ok more ∧
      made = bound threshold style (contexts ++ more) := by
  obtain ⟨more, hpieces, rfl⟩ := exists_of_map_eq_ok h
  exact ⟨more, hpieces, rfl⟩

/-- What comes of several contexts comes of a child. -/
theorem Logger.exists_child_of_descend {base l : Logger} {b : Binding} {lineage : List Binding}
    (h : base.descend (b :: lineage) = .ok l) :
    ∃ made, base.child b.instant b.context = .ok made ∧ made.descend lineage = .ok l := by
  rw [descend_cons] at h
  cases hmade : base.child b.instant b.context with
  | error e =>
    rw [hmade] at h
    cases h
  | ok made =>
    rw [hmade] at h
    exact ⟨made, rfl, h⟩

/-- A child writes at the levels at which its parent does. -/
theorem Logger.admits_of_child {l made : Logger} {now : Int} {context : Value}
    (h : l.child now context = .ok made) : made.admits = l.admits := by
  cases l with
  | null =>
    cases h
    rfl
  | bound threshold style contexts =>
    obtain ⟨more, -, rfl⟩ := exists_pieces_of_child h
    rfl

/-- **The levels at which a logger writes do not depend on what is bound to it.** -/
theorem Logger.admits_of_descend {base l : Logger} {lineage : List Binding}
    (h : base.descend lineage = .ok l) : l.admits = base.admits := by
  induction lineage generalizing base with
  | nil =>
    cases h
    rfl
  | cons b lineage ih =>
    obtain ⟨made, hmade, hrest⟩ := exists_child_of_descend h
    exact (ih hrest).trans (admits_of_child hmade)

/-! ### One step -/

/-- **What binding a context can do to a tree**: the child can be made, or the tree is left as it is
and no child is shown. -/
theorem Tree.step_child_cases (t : Tree) (now : Int) (on as : String) (context : Value) :
    (∃ parent made, t.get? on = some parent ∧ parent.child now context = .ok made) ∨
    ((∀ writes, (t.step now (.child on as context)).1 ≠ .child writes) ∧
      (t.step now (.child on as context)).2 = t) := by
  cases hon : t.get? on with
  | none => exact Or.inr (by simp [Tree.step, hon])
  | some parent =>
    cases hmade : parent.child now context with
    | error e => exact Or.inr (by simp [Tree.step, hon, hmade])
    | ok made => exact Or.inl ⟨parent, made, rfl, hmade⟩

/-- A call leaves the tree as it is. -/
theorem Tree.step_log_snd (t : Tree) (now : Int) (on : String) (level : Level) (message : String)
    (details : Value) : (t.step now (.log on level message details)).2 = t := by
  cases hon : t.get? on <;> simp only [Tree.step, hon]

/-- A tree of loggers, with the lineage of each. -/
structure Family where
  /-- The loggers, by name. -/
  tree : Tree
  /-- What was bound to them from the root down, by their names. -/
  lineages : Table (List Binding)

namespace Family

/-- The family of a root alone. -/
def ofRoot (root : Logger) (first : Binding) : Family :=
  ⟨Tree.ofRoot root, [("root", [first])]⟩

/-- The lineages after a step with this outcome. A child that was made has the lineage of its parent
with one context more. -/
def lineagesAfter (lineages : Table (List Binding)) (now : Int) :
    Step → Outcome → Table (List Binding)
  | .child on as context, .child _ =>
    lineages.set as ((lineages.get? on).getD [] ++ [⟨now, context⟩])
  | _, _ => lineages

/-- One step. -/
def step (f : Family) (now : Int) (s : Step) : Family :=
  ⟨(f.tree.step now s).2, lineagesAfter f.lineages now s (f.tree.step now s).1⟩

/-- Several steps, each at an instant. -/
def after (f : Family) (steps : List (Int × Step)) : Family :=
  steps.foldl (fun f s => f.step s.1 s.2) f

/-- The family that steps make of a root. -/
def grown (root : Logger) (first : Binding) (steps : List (Int × Step)) : Family :=
  (ofRoot root first).after steps

/-- **Every logger is what its lineage makes of one and the same logger.** -/
def IsGrownFrom (base : Logger) (f : Family) : Prop :=
  ∀ name, (f.tree.get? name).map Except.ok = (f.lineages.get? name).map base.descend

variable {base root : Logger} {f : Family}

theorem isGrownFrom_ofRoot {first : Binding}
    (h : base.child first.instant first.context = .ok root) :
    IsGrownFrom base (ofRoot root first) := by
  intro name
  by_cases hname : "root" = name
  · have hdescend : base.descend [first] = .ok root := by
      rw [Logger.descend_cons, h]
      rfl
    simp [ofRoot, Tree.ofRoot, Table.get?, hname, hdescend]
  · simp [ofRoot, Tree.ofRoot, Table.get?, hname]

/-- A logger of the tree, with its lineage. -/
theorem IsGrownFrom.exists_lineage (h : IsGrownFrom base f) {name : String} {l : Logger}
    (hname : f.tree.get? name = some l) :
    ∃ lineage, f.lineages.get? name = some lineage ∧ base.descend lineage = .ok l := by
  have hgrown := h name
  rw [hname, Option.map_some] at hgrown
  exact Option.map_eq_some_iff.mp hgrown.symm

/-- What has a lineage is a logger of the tree. -/
theorem IsGrownFrom.exists_logger (h : IsGrownFrom base f) {name : String}
    {lineage : List Binding} (hname : f.lineages.get? name = some lineage) :
    ∃ l, f.tree.get? name = some l ∧ base.descend lineage = .ok l := by
  have hgrown := h name
  rw [hname, Option.map_some] at hgrown
  obtain ⟨l, hl, hdescend⟩ := Option.map_eq_some_iff.mp hgrown
  exact ⟨l, hl, hdescend.symm⟩

theorem lineagesAfter_of_not_child (lineages : Table (List Binding)) (now : Int) (s : Step)
    {outcome : Outcome} (h : ∀ writes, outcome ≠ .child writes) :
    lineagesAfter lineages now s outcome = lineages := by
  cases s with
  | log on level message details => rfl
  | child on as context =>
    cases outcome with
    | child writes => exact absurd rfl (h writes)
    | _ => rfl

/-- A child that can be made is added, with the lineage of its parent and one context more. -/
theorem step_child {on as : String} {parent made : Logger} {lineage : List Binding} {now : Int}
    {context : Value} (hon : f.tree.get? on = some parent)
    (hlineage : f.lineages.get? on = some lineage)
    (hmade : parent.child now context = .ok made) :
    f.step now (.child on as context)
      = ⟨f.tree.set as made, f.lineages.set as (lineage ++ [⟨now, context⟩])⟩ := by
  have hstep : f.tree.step now (.child on as context)
      = (.child (Tree.writes parent), f.tree.set as made) := by
    simp only [Tree.step, hon, hmade]
  rw [step, hstep, lineagesAfter, hlineage, Option.getD_some]

/-- **One step keeps it.** -/
theorem isGrownFrom_step (h : IsGrownFrom base f) (now : Int) (s : Step) :
    IsGrownFrom base (f.step now s) := by
  cases s with
  | log on level message details =>
    rw [step, Tree.step_log_snd]
    exact h
  | child on as context =>
    rcases Tree.step_child_cases f.tree now on as context with
      ⟨parent, made, hon, hmade⟩ | ⟨hother, hsame⟩
    · obtain ⟨lineage, hlineage, hparent⟩ := h.exists_lineage hon
      intro name
      rw [step_child hon hlineage hmade, Table.get?_set, Table.get?_set]
      split
      · rw [Option.map_some, Option.map_some, Logger.descend_concat, hparent]
        exact congrArg some hmade.symm
      · exact h name
    · rw [step, hsame, lineagesAfter_of_not_child _ _ _ hother]
      exact h

/-- **Steps keep it**, on whatever loggers and in whatever order. -/
theorem isGrownFrom_after (h : IsGrownFrom base f) (steps : List (Int × Step)) :
    IsGrownFrom base (f.after steps) := by
  induction steps generalizing f with
  | nil => exact h
  | cons s steps ih => exact ih (isGrownFrom_step h s.1 s.2)

theorem isGrownFrom_grown (first : Binding)
    (h : base.child first.instant first.context = .ok root) (steps : List (Int × Step)) :
    IsGrownFrom base (grown root first steps) :=
  isGrownFrom_after (isGrownFrom_ofRoot h) steps

end Family

/-! ### Calls -/

/-- What a call is not to write, it does not look at. -/
theorem log_of_not_admits {now : Int} {level : Level} {message : String} {l : Logger}
    (h : l.admits level = false) (details : Value) :
    Tree.log now l level message details = .wrote [] := by
  cases l with
  | null => rfl
  | bound threshold style contexts =>
    rw [Logger.admits] at h
    simp [Tree.log, Logger.write, h]

/-- **What is to be written is one line**, at the level of the call, unless the details are
refused. -/
theorem log_of_admits {l : Logger} {level : Level} (h : l.admits level = true) (now : Int)
    (message : String) (details : Value) :
    (∃ line : Line, Tree.log now l level message details = .wrote [line] ∧
      line.isAt level = true) ∨
    ∃ style e, detailPieces style now details = .error e ∧
      Tree.log now l level message details = .refused e := by
  cases l with
  | null => cases h
  | bound threshold style contexts =>
    rw [Logger.admits] at h
    cases hpieces : detailPieces style now details with
    | error e =>
      refine Or.inr ⟨style, e, hpieces, ?_⟩
      simp only [Tree.log, Logger.write, h, if_true, hpieces, Except.map]
    | ok pieces =>
      refine Or.inl ⟨line now level contexts pieces (messageOf message details), ?_,
        Line.isAt_line _ _ _ _ _⟩
      simp only [Tree.log, Logger.write, h, if_true, hpieces, Except.map]

/-- **What a call shows depends on the lineage of its logger alone**: it is answered by what the
lineage makes of the common logger. -/
theorem Family.IsGrownFrom.step_log {base l : Logger} {f : Family} (h : f.IsGrownFrom base)
    {name : String} {lineage : List Binding} (hname : f.lineages.get? name = some lineage)
    (hdescend : base.descend lineage = .ok l) (now : Int) (level : Level) (message : String)
    (details : Value) :
    (f.tree.step now (.log name level message details)).1
      = Tree.log now l level message details := by
  obtain ⟨l', hl', hdescend'⟩ := h.exists_logger hname
  obtain rfl : l' = l := Except.ok.inj (hdescend'.symm.trans hdescend)
  simp only [Tree.step, hl']

/-! ### Roots -/

/-- **A root is made from a logger to which nothing is bound**, with its context. -/
theorem exists_base_of_open {opened : Int} {level : Option String} {context : Value}
    {root : Logger}
    (h : openDestination opened level context = .ok root
      ∨ openOver opened level context = .ok root) :
    ∃ threshold style, (Logger.bound threshold style []).child opened context = .ok root := by
  have hnamed : ∀ {style : CauseStyle} {name : String},
      openNamed style opened name context = .ok root →
        ∃ threshold style, (Logger.bound threshold style []).child opened context = .ok root := by
    intro style name hopen
    unfold openNamed at hopen
    split at hopen
    · exact ⟨_, _, hopen⟩
    · split at hopen
      · cases hpieces : contextPieces style opened context <;>
          simp [hpieces, bind, Except.bind] at hopen
      · cases hopen
  rcases h with h | h
  · unfold openDestination at h
    split at h
    · exact ⟨_, _, h⟩
    · exact ⟨_, _, h⟩
    · exact hnamed h
  · exact hnamed h

end Log

end ConfigSource
