import ConfigSource.Log.Handle
import ConfigSource.Proofs.Log.Family

/-!
# What a threshold leaves out

The threshold of a tree of loggers is that of its root. A step is **below** it if it is a call at a
level that the threshold does not admit, and such a call writes nothing. Everything else goes on as
it would if every level were admitted: the same children are made, the same contexts and details
are refused, the same lines are written. So the lines of a tree under a threshold are those of the
same steps where every level is admitted, less the calls below the threshold
(`ConfigSource.Log.filters_threshold`).

* Two trees that differ in their thresholds take every step alike, up to what is shown of the steps
  below (`ConfigSource.Log.Tree.step_withThreshold`, `ConfigSource.Log.Tree.run_withThreshold`).
* Every logger that is grown from a root writes at the levels of the root
  (`ConfigSource.Log.Tree.AllAdmit.step`, `ConfigSource.Log.Tree.AllAdmit.after`).
* The level that was asked for where a root was opened plays no part in its tree: handles take every
  step as their loggers do (`ConfigSource.Log.Handles.step_loggers`,
  `ConfigSource.Log.Handles.run_eq`).
-/

namespace ConfigSource

namespace Log

/-! ### Steps below a threshold -/

/-- The threshold that admits every level. -/
def Threshold.everything : Threshold := .atLeast .trace

theorem Threshold.admits_everything (level : Level) : everything.admits level = true := by
  cases level <;> rfl

/-- Whether a step is a call that a threshold does not admit. -/
def Step.isBelow (threshold : Threshold) : Step → Bool
  | .log _ level _ _ => !threshold.admits level
  | .child _ _ _ => false

namespace Outcome

/-- The lines that a step wrote. -/
def lines : Outcome → List Line
  | .wrote lines => lines
  | _ => []

/-- What is shown of a call that writes nothing. -/
def hushed : Outcome → Outcome
  | .unknown name => .unknown name
  | _ => .wrote []

/-- What a threshold leaves of the outcome of a step. -/
def under (threshold : Threshold) (s : Step) (outcome : Outcome) : Outcome :=
  if s.isBelow threshold then outcome.hushed else outcome

theorem lines_hushed (outcome : Outcome) : outcome.hushed.lines = [] := by
  cases outcome <;> rfl

/-- A call to a logger that is there writes nothing once it is hushed. -/
theorem hushed_log (now : Int) (l : Logger) (level : Level) (message : String) (details : Value) :
    (Tree.log now l level message details).hushed = .wrote [] := by
  unfold Tree.log
  split <;> rfl

/-- **The lines under a threshold are those of the steps that are not below it.** -/
theorem flatMap_lines_under (threshold : Threshold) (steps : List Step) (outcomes : List Outcome) :
    (List.zipWith (under threshold) steps outcomes).flatMap lines
      = ((steps.zip outcomes).filter fun s => !s.1.isBelow threshold).flatMap
          fun s => s.2.lines := by
  induction steps generalizing outcomes with
  | nil => rfl
  | cons s steps ih =>
    cases outcomes with
    | nil => rfl
    | cons outcome outcomes =>
      rw [List.zipWith_cons_cons, List.flatMap_cons, ih, List.zip_cons_cons, under]
      cases hbelow : s.isBelow threshold <;> simp [hbelow, lines_hushed]

end Outcome

/-! ### Another threshold -/

namespace Logger

/-- The logger with another threshold. -/
def withThreshold (l : Logger) (threshold : Threshold) : Logger :=
  match l with
  | null => null
  | bound _ style contexts => bound threshold style contexts

/-- A context is bound, or refused, whatever the threshold is. -/
theorem child_withThreshold (l : Logger) (threshold : Threshold) (now : Int) (context : Value) :
    (l.withThreshold threshold).child now context
      = (l.child now context).map fun made => made.withThreshold threshold := by
  cases l with
  | null => rfl
  | bound own style contexts =>
    simp only [withThreshold, child]
    cases contextPieces style now context <;> rfl

theorem writes_withThreshold (l : Logger) (threshold : Threshold) :
    Tree.writes (l.withThreshold threshold) = Tree.writes l := by
  cases l <;> rfl

/-- **A call under a threshold shows what it shows under none**, or nothing if it is below. -/
theorem log_withThreshold (l : Logger) (threshold : Threshold) (now : Int) (on : String)
    (level : Level) (message : String) (details : Value) :
    Tree.log now (l.withThreshold threshold) level message details
      = (Tree.log now (l.withThreshold .everything) level message details).under threshold
          (.log on level message details) := by
  rw [Outcome.under, Step.isBelow]
  cases hadmits : threshold.admits level with
  | false =>
    rw [Bool.not_false, if_pos rfl, Outcome.hushed_log]
    refine log_of_not_admits ?_ details
    cases l with
    | null => rfl
    | bound own style contexts => exact hadmits
  | true =>
    rw [Bool.not_true, if_neg Bool.false_ne_true]
    cases l with
    | null => rfl
    | bound own style contexts =>
      simp only [Tree.log, write, withThreshold, hadmits, Threshold.admits_everything]

end Logger

namespace Tree

variable {t : Tree} {now : Int}

/-- The tree with all its loggers at another threshold. -/
def withThreshold (t : Tree) (threshold : Threshold) : Tree :=
  Table.mapValues (fun l => l.withThreshold threshold) t

/-- **One step under a threshold** shows what it shows under none, or nothing if it is below, and
does the same to the tree. -/
theorem step_withThreshold (t : Tree) (threshold : Threshold) (now : Int) (s : Step) :
    (t.withThreshold threshold).step now s
      = (((t.withThreshold .everything).step now s).1.under threshold s,
          (t.step now s).2.withThreshold threshold) := by
  cases s with
  | log on level message details =>
    cases hon : t.get? on with
    | none =>
      simp only [step, withThreshold, Table.get?_mapValues, hon, Option.map_none, Outcome.under,
        Outcome.hushed, ite_self]
    | some l =>
      simp only [step, withThreshold, Table.get?_mapValues, hon, Option.map_some,
        ← Logger.log_withThreshold]
  | child on as context =>
    rw [Outcome.under, Step.isBelow, if_neg Bool.false_ne_true]
    cases hon : t.get? on with
    | none => simp only [step, withThreshold, Table.get?_mapValues, hon, Option.map_none]
    | some l =>
      simp only [step, withThreshold, Table.get?_mapValues, hon, Option.map_some,
        Logger.child_withThreshold, Logger.writes_withThreshold]
      cases l.child now context with
      | error e => rfl
      | ok made => simp only [Except.map, ← Table.set_mapValues]

/-- **A run under a threshold** shows what it shows under none, and nothing of the steps below. -/
theorem run_withThreshold (t : Tree) (threshold : Threshold) (now : Int) (steps : List Step) :
    run now (t.withThreshold threshold) steps
      = List.zipWith (Outcome.under threshold) steps
          (run now (t.withThreshold .everything) steps) := by
  -- the two runs go on from one tree at two thresholds, which is what `t` stands for
  induction steps generalizing t with
  | nil => rfl
  | cons s steps ih =>
    rw [run, run, List.zipWith_cons_cons, step_withThreshold t threshold, ih,
      step_withThreshold t .everything]

/-! ### One threshold for a tree -/

/-- The tree after steps. -/
def after (t : Tree) (now : Int) (steps : List Step) : Tree :=
  steps.foldl (fun t s => (t.step now s).2) t

/-- All loggers of a tree write at the same levels. -/
def AllAdmit (t : Tree) (admits : Level → Bool) : Prop :=
  ∀ name l, t.get? name = some l → l.admits = admits

theorem allAdmit_ofRoot (root : Logger) : (ofRoot root).AllAdmit root.admits := by
  intro name l hl
  rw [ofRoot, Table.get?] at hl
  split at hl
  · rw [Option.some.inj hl]
  · cases hl

/-- **A step keeps the levels at which a tree writes.** -/
theorem AllAdmit.step {admits : Level → Bool} (h : t.AllAdmit admits) (s : Step) :
    (t.step now s).2.AllAdmit admits := by
  cases s with
  | log on level message details =>
    rw [step_log_snd]
    exact h
  | child on as context =>
    rcases step_child_cases t now on as context with ⟨parent, made, hon, hmade⟩ | ⟨-, hsame⟩
    · intro name l hl
      simp only [Tree.step, hon, hmade, Table.get?_set] at hl
      split at hl
      · rw [← Option.some.inj hl, Logger.admits_of_child hmade, h on parent hon]
      · exact h name l hl
    · rw [hsame]
      exact h

/-- **Steps keep the levels at which a tree writes**, at every depth. -/
theorem AllAdmit.after {admits : Level → Bool} (h : t.AllAdmit admits) (steps : List Step) :
    (t.after now steps).AllAdmit admits := by
  induction steps generalizing t with
  | nil => exact h
  | cons s steps ih => exact ih (h.step s)

/-- Binding a context writes nothing. -/
theorem lines_step_child (t : Tree) (now : Int) (on as : String) (context : Value) :
    (t.step now (.child on as context)).1.lines = [] := by
  cases hon : t.get? on with
  | none => simp only [step, hon, Outcome.lines]
  | some parent =>
    cases hmade : parent.child now context <;> simp only [step, hon, hmade, Outcome.lines]

/-- **A tree that writes at no level writes nothing.** -/
theorem AllAdmit.lines_eq_nil (h : t.AllAdmit fun _ => false) {steps : List Step}
    {outcome : Outcome} (hmem : outcome ∈ run now t steps) : outcome.lines = [] := by
  induction steps generalizing t with
  | nil => cases hmem
  | cons s steps ih =>
    rcases List.mem_cons.mp hmem with rfl | hmem
    · cases s with
      | log on level message details =>
        cases hon : t.get? on with
        | none => simp only [Tree.step, hon, Outcome.lines]
        | some l =>
          simp only [Tree.step, hon]
          rw [log_of_not_admits (congrFun (h on l hon) level), Outcome.lines]
      | child on as context => exact lines_step_child t now on as context
    · exact ih (h.step s) hmem

end Tree

/-! ### Handles and their loggers -/

/-- What is handed out is opened over its ground. -/
theorem Handle.opened_of_make {now : Int} {ground : Ground} {asked : Option String}
    {context : Value} {root : Handle} (h : make now ground asked context = .ok root) :
    ground.opened now asked context = .ok root.logger := by
  obtain ⟨made, hopened, rfl⟩ := exists_of_map_eq_ok h
  exact hopened

namespace Handles

/-- The loggers of the handles. -/
def loggers (t : Handles) : Tree := Table.mapValues Handle.logger t

theorem loggers_ofRoot (root : Handle) : (ofRoot root).loggers = Tree.ofRoot root.logger := rfl

/-- The handles after steps. -/
def after (t : Handles) (now : Int) (steps : List Step) : Handles :=
  steps.foldl (fun t s => (step now t s).2) t

/-- **Handles take a step as their loggers do**, whatever the level that was asked for. -/
theorem step_loggers (t : Handles) (now : Int) (s : Step) :
    t.loggers.step now s = ((step now t s).1, loggers (step now t s).2) := by
  cases s with
  | log on level message details =>
    cases hon : t.get? on <;>
      simp only [Tree.step, step, loggers, Table.get?_mapValues, hon, Option.map_none,
        Option.map_some]
  | child on as context =>
    cases hon : t.get? on with
    | none => simp only [Tree.step, step, loggers, Table.get?_mapValues, hon, Option.map_none]
    | some h =>
      simp only [Tree.step, step, loggers, Table.get?_mapValues, hon, Option.map_some,
        Handle.child, Handle.make, Ground.opened]
      cases h.logger.child now context with
      | error e => rfl
      | ok made => simp only [Except.map, ← Table.set_mapValues]

theorem run_eq (t : Handles) (now : Int) (steps : List Step) :
    run now t steps = Tree.run now t.loggers steps := by
  induction steps generalizing t with
  | nil => rfl
  | cons s steps ih => rw [run, Tree.run, step_loggers, ih]

theorem loggers_after (t : Handles) (now : Int) (steps : List Step) :
    (t.after now steps).loggers = t.loggers.after now steps := by
  induction steps generalizing t with
  | nil => rfl
  | cons s steps ih =>
    rw [after, List.foldl_cons, ← after, ih, Tree.after, Tree.after, List.foldl_cons,
      step_loggers]

end Handles

/-! ### Roots -/

/-- What is opened with a threshold of this name is a child of a logger at that threshold. -/
theorem openNamed_of_parse? {name : String} {threshold : Threshold}
    (h : Threshold.parse? name = some threshold) (style : CauseStyle) (now : Int)
    (context : Value) :
    openNamed style now name context
      = (Logger.bound threshold style []).child now context := by
  rw [openNamed, h]

/-- Over a destination the name is the one that is asked for. -/
theorem Ground.opened_destination {name : String} {threshold : Threshold}
    (h : Threshold.parse? name = some threshold) (now : Int) (context : Value) :
    destination.opened now (some name) context
      = (Logger.bound threshold .nested []).child now context := by
  rw [opened, openDestination]
  · exact openNamed_of_parse? h .nested now context
  · intro hempty
    rw [hempty, show Threshold.parse? "" = none from by decide] at h
    cases h

/-- Over a logger without contexts it is that of its own level. -/
theorem Ground.opened_unbound (own : Option String) {threshold : Threshold}
    (h : Threshold.parse? (own.getD "info") = some threshold) (asked : Option String) (now : Int)
    (context : Value) :
    (unbound own).opened now asked context
      = (Logger.bound threshold .joined []).child now context :=
  openNamed_of_parse? h .joined now context

/-- What steps show on a root is what its loggers show. -/
theorem transcript_eq (now : Int) (ground : Ground) (asked : Option String) (context : Value)
    (steps : List Step) :
    transcript now ground asked context steps
      = (ground.opened now asked context).map fun root =>
          Tree.run now (Tree.ofRoot root) steps := by
  rw [transcript, Handle.make]
  cases ground.opened now asked context with
  | error e => rfl
  | ok root => exact congrArg Except.ok (Handles.run_eq _ now steps)

/-! ### Filtering -/

/-- **Every logger of a tree writes at some levels and at no others.** The tree is grown by steps
from what is opened over a ground. Of a call at one of the levels each of its loggers writes one
line, at the level of the call, unless the details are refused; of any other call it writes
nothing. -/
def WritesAt (now : Int) (context : Value) (steps : List Step) (ground : Ground)
    (asked : Option String) (admits : Level → Bool) : Prop :=
  ∀ root, Handle.make now ground asked context = .ok root →
    ∀ name h, ((Handles.ofRoot root).after now steps).get? name = some h →
      ∀ level message details,
        (admits level = true →
          (∃ line : Line, Tree.log now h.logger level message details = .wrote [line] ∧
            line.isAt level = true) ∨
          ∃ style e, detailPieces style now details = .error e ∧
            Tree.log now h.logger level message details = .refused e) ∧
        (admits level = false → Tree.log now h.logger level message details = .wrote [])

theorem WritesAt.of_opened {now : Int} {context : Value} {ground : Ground} {asked : Option String}
    {admits : Level → Bool}
    (hopened : ∀ root, ground.opened now asked context = .ok root → root.admits = admits)
    (steps : List Step) : WritesAt now context steps ground asked admits := by
  intro root hroot name h hname level message details
  have hgrown : ((Tree.ofRoot root.logger).after now steps).get? name = some h.logger := by
    rw [← Handles.loggers_ofRoot, ← Handles.loggers_after, Handles.loggers, Table.get?_mapValues,
      hname, Option.map_some]
  have hadmits : h.logger.admits = admits :=
    ((Tree.allAdmit_ofRoot root.logger).after steps name h.logger hgrown).trans
      (hopened root.logger (Handle.opened_of_make hroot))
  rw [← hadmits]
  exact ⟨fun hlevel => log_of_admits hlevel now message details,
    fun hlevel => log_of_not_admits hlevel details⟩

/-- **A threshold filters the steps on what is opened over a ground**, and does nothing else.
Compared is what is opened over a ground that is free of a threshold. -/
structure Filters (now : Int) (context : Value) (steps : List Step) (threshold : Threshold)
    (ground : Ground) (asked : Option String) (free : Ground) (freeAsked : Option String) :
    Prop where
  /-- Steps show what they show there, and nothing is shown of those below the threshold. -/
  outcomes : transcript now ground asked context steps
    = (transcript now free freeAsked context steps).map
        (List.zipWith (Outcome.under threshold) steps)
  /-- The lines are those that are written there, in their order, by steps that are not below the
  threshold. -/
  lines : (transcript now ground asked context steps).map (List.flatMap Outcome.lines)
    = (transcript now free freeAsked context steps).map fun outcomes =>
        ((steps.zip outcomes).filter fun s => !s.1.isBelow threshold).flatMap fun s => s.2.lines
  /-- Every logger of the tree goes by the threshold. -/
  everywhere : WritesAt now context steps ground asked threshold.admits

/-- What is opened over a logger with a threshold is filtered by it. -/
theorem Filters.of_child {now : Int} {context : Value} {threshold : Threshold} {style : CauseStyle}
    {contexts : List Piece} {ground free : Ground} {asked freeAsked : Option String}
    (hground : ground.opened now asked context
      = (Logger.bound threshold style contexts).child now context)
    (hfree : free.opened now freeAsked context
      = (Logger.bound .everything style contexts).child now context) (steps : List Step) :
    Filters now context steps threshold ground asked free freeAsked := by
  have houtcomes : transcript now ground asked context steps
      = (transcript now free freeAsked context steps).map
          (List.zipWith (Outcome.under threshold) steps) := by
    have hchild := Logger.child_withThreshold (.bound .everything style contexts) threshold now
      context
    rw [transcript_eq, transcript_eq, hground, hfree]
    refine (congrArg (Except.map _) hchild).trans ?_
    cases hroot : (Logger.bound .everything style contexts).child now context with
    | error e => rfl
    | ok root =>
      -- a child of a logger that admits everything does so itself, so its threshold is that already
      obtain ⟨more, -, rfl⟩ := Logger.exists_pieces_of_child hroot
      exact congrArg Except.ok (Tree.run_withThreshold (Tree.ofRoot _) threshold now steps)
  refine ⟨houtcomes, ?_, WritesAt.of_opened (fun root hroot => ?_) steps⟩
  · rw [houtcomes]
    cases transcript now free freeAsked context steps with
    | error e => rfl
    | ok outcomes => exact congrArg Except.ok (Outcome.flatMap_lines_under threshold steps outcomes)
  · rw [hground] at hroot
    rw [Logger.admits_of_child hroot]
    rfl

/-- **A threshold filters calls and does nothing else.** What steps show on a tree of loggers, and
the lines that they write, are what they show and write where every level is admitted, less the
calls below the threshold; and every logger of the tree goes by it. The lines are the same, so the
entries that are read from them are, whatever stands in them under `level`.

Over a destination the threshold is the one that is asked for, under the name of a level or any
other name that is known, and `info` if none is. Over a logger it is the threshold of that logger,
whatever is asked for. Over nothing no logger of the tree writes anything. -/
theorem filters_threshold (now : Int) (context : Value) (steps : List Step) :
    (∀ level : Level, Threshold.parse? level.name = some (.atLeast level)) ∧
    (∀ name threshold, Threshold.parse? name = some threshold →
      Filters now context steps threshold .destination (some name) .destination (some "trace")) ∧
    transcript now .destination none context steps
      = transcript now .destination (some "info") context steps ∧
    (∀ own threshold asked, Threshold.parse? (own.getD "info") = some threshold →
      Filters now context steps threshold (.unbound own) asked (.unbound (some "trace")) none) ∧
    (∀ threshold style contexts asked,
      Filters now context steps threshold (.logger (.bound threshold style contexts)) asked
        (.logger (.bound .everything style contexts)) none) ∧
    ∀ asked, (transcript now .nothing asked context steps).map (List.flatMap Outcome.lines)
        = .ok [] ∧
      WritesAt now context steps .nothing asked fun _ => false := by
  have hinfo : Threshold.parse? "info" = some .default := by decide
  have htrace : Threshold.parse? "trace" = some .everything := by decide
  refine ⟨fun level => by cases level <;> decide, fun name threshold hname => ?_, ?_,
    fun own threshold asked hown => ?_, fun threshold style contexts asked => ?_, fun asked => ?_⟩
  · exact Filters.of_child (Ground.opened_destination hname now context)
      (Ground.opened_destination htrace now context) steps
  · rw [transcript_eq, transcript_eq, Ground.opened_destination hinfo]
    rfl
  · exact Filters.of_child (Ground.opened_unbound own hown asked now context)
      (Ground.opened_unbound (some "trace") htrace none now context) steps
  · exact Filters.of_child rfl rfl steps
  · refine ⟨?_, WritesAt.of_opened (fun root hroot => ?_) steps⟩
    · rw [transcript_eq, Ground.opened]
      refine congrArg Except.ok (List.flatMap_eq_nil_iff.mpr fun outcome hmem => ?_)
      exact (Tree.allAdmit_ofRoot .null).lines_eq_nil hmem
    · rw [← Except.ok.inj hroot]
      rfl

/-- A child binds a member `level`, and its calls say one of their own. A destination is opened with
the threshold `warn`, and `trace` is asked for over a logger whose own level is `fatal`. -/
theorem filters_threshold_warn :
    let steps : List Step := [.child "root" "c" (.record [("level", .text "trace")]),
      .log "c" .info "skipped" (.record [("level", .number (.ofInt 60))]),
      .log "c" .error "kept" (.record [("level", .number (.ofInt 10))])]
    let written (ground : Ground) (asked : String) : Option (List Nat) :=
      ((transcript 0 ground (some asked) (.record []) steps).map fun outcomes =>
        outcomes.map fun outcome => outcome.lines.length).toOption
    Threshold.parse? "warn" = some (.atLeast .warn) ∧
      written .destination "trace" = some [0, 1, 1] ∧
      written .destination "warn" = some [0, 0, 1] ∧
      Threshold.parse? ((some "fatal").getD "info") = some (.atLeast .fatal) ∧
      written (.unbound (some "fatal")) "trace" = some [0, 0, 0] := by
  intro steps written
  obtain ⟨-, hdestination, -, hunbound, -⟩ := filters_threshold 0 (.record []) steps
  have hwarn : Threshold.parse? "warn" = some (.atLeast .warn) := by decide
  have hfatal : Threshold.parse? ((some "fatal").getD "info") = some (.atLeast .fatal) := by decide
  refine ⟨hwarn, by decide +kernel, ?_, hfatal, ?_⟩
  · simp only [written, (hdestination "warn" _ hwarn).outcomes]
    decide +kernel
  · simp only [written, (hunbound (some "fatal") _ (some "trace") hfatal).outcomes]
    decide +kernel

end Log

end ConfigSource
