import ConfigSource.Include
import Mathlib.Tactic.Common

/-!
# Chains as lists of leaves

A chain is a tree, but it answers as the **list of its leaves** from left to right: they are asked
one after the other, up to the first that does not defer. This holds in every monad, so failures and
side effects are covered (`ConfigSource.Chain.ask_eq_askAll`).

What that means for a run is said with states. Leaves that may fail and change a state are
**deferred through** if each of them defers, in the state that the one before left
(`ConfigSource.Chain.DefersThrough`). A leaf that is **noted** enters itself, its context and its
directive in a list before it answers (`ConfigSource.Chain.noting`), so that the list tells which
leaves were consulted, and in which order.

A reply is **signed** by the leaf that gave it, not by the chain (`ConfigSource.SignedBy`): this is
so for functions and for all built-in leaves, also where a rule hands a directive on.
-/

namespace ConfigSource

namespace Chain

variable {α β κ ε σ : Type}

/-- Asks leaves one after the other, up to the first that does not defer. -/
def askAll {m : Type → Type} [Monad m] (askLeaf : α → m (Option β)) : List α → m (Option β)
  | [] => pure none
  | a :: as => do
    match ← askLeaf a with
    | some reply => pure (some reply)
    | none => askAll askLeaf as

section Monadic

variable {m : Type → Type} [Monad m] [LawfulMonad m] (askLeaf : α → m (Option β))

/-- The second of two lists is asked for what the first defers. -/
theorem askAll_append (as bs : List α) :
    askAll askLeaf (as ++ bs) = askAll askLeaf as >>= fun reply =>
      match reply with
      | some reply => pure (some reply)
      | none => askAll askLeaf bs := by
  induction as with
  | nil => simp [askAll]
  | cons a as ih =>
    rw [List.cons_append, askAll, askAll, ih, bind_assoc]
    refine bind_congr fun reply => ?_
    cases reply <;> simp

/-- **Asking a chain is asking its leaves**, from left to right. -/
theorem ask_eq_askAll (c : Chain α) : c.ask askLeaf = askAll askLeaf c.leaves := by
  induction c with
  | leaf identity a =>
    rw [ask, leaves, askAll]
    refine (bind_pure (askLeaf a)).symm.trans (bind_congr fun reply => ?_)
    cases reply <;> simp [askAll]
  | fallback identity primary secondary ihPrimary ihSecondary =>
    rw [ask, leaves, ihPrimary, ihSecondary]
    refine Eq.trans (bind_congr fun reply => ?_) (askAll_append askLeaf _ _).symm
    cases reply <;> rfl

end Monadic

/-- Chains have leaves. -/
theorem leaves_ne_nil (c : Chain α) : c.leaves ≠ [] := by
  induction c with
  | leaf identity a => exact List.cons_ne_nil a []
  | fallback identity primary secondary ihPrimary _ =>
    exact fun h => ihPrimary (List.append_eq_nil_iff.mp h).1

/-- **The name of a chain is made of the names of its leaves.** -/
theorem name_eq_intercalate (leafName : α → String) (c : Chain α) :
    c.name leafName = " -> ".intercalate (c.leaves.map leafName) := by
  induction c with
  | leaf identity a => exact String.intercalate_singleton.symm
  | fallback identity primary secondary ihPrimary ihSecondary =>
    have hnames (part : Chain α) : part.leaves.map leafName ≠ [] := fun h =>
      leaves_ne_nil part (List.map_eq_nil_iff.mp h)
    rw [name, leaves, List.map_append, ihPrimary, ihSecondary,
      String.intercalate_append_of_ne_nil (hnames primary) (hnames secondary)]

/-! ### Runs -/

/-- Leaves that all defer, one after the other, with the states before and after them. -/
inductive DefersThrough (askLeaf : α → ExceptT ε (StateM σ) (Option β)) : σ → List α → σ → Prop
  /-- Nobody is asked. -/
  | nil (s : σ) : DefersThrough askLeaf s [] s
  /-- A leaf defers, and so do those behind it. -/
  | cons {s s₁ s₂ : σ} {a : α} {as : List α} :
    (askLeaf a).run s = (.ok none, s₁) → DefersThrough askLeaf s₁ as s₂ →
      DefersThrough askLeaf s (a :: as) s₂

theorem run_askAll_of_defers {askLeaf : α → ExceptT ε (StateM σ) (Option β)} {a : α} {s s₁ : σ}
    (h : (askLeaf a).run s = (.ok none, s₁)) (as : List α) :
    (askAll askLeaf (a :: as)).run s = (askAll askLeaf as).run s₁ := by
  simp only [askAll, ExceptT.run_bind]
  simp only [bind, StateT.bind, h]

theorem run_askAll_of_answers {askLeaf : α → ExceptT ε (StateM σ) (Option β)} {a : α} {s : σ}
    (h : ((askLeaf a).run s).1 ≠ .ok none) (as : List α) :
    (askAll askLeaf (a :: as)).run s = (askLeaf a).run s := by
  simp only [askAll, ExceptT.run_bind]
  rcases ha : (askLeaf a).run s with ⟨outcome, s₁⟩
  rw [ha] at h
  rcases outcome with e | _ | reply
  · simp only [bind, StateT.bind, ha]
    rfl
  · exact absurd rfl h
  · simp only [bind, StateT.bind, ha]
    rfl

/-- **What is deferred through is passed over**: the leaves behind it are asked in the state that it
left. -/
theorem run_askAll_append {askLeaf : α → ExceptT ε (StateM σ) (Option β)} {before : List α}
    {s s₁ : σ} (h : DefersThrough askLeaf s before s₁) (rest : List α) :
    (askAll askLeaf (before ++ rest)).run s = (askAll askLeaf rest).run s₁ := by
  induction h with
  | nil s => rfl
  | cons hdefers _ ih => rw [List.cons_append, run_askAll_of_defers hdefers, ih]

/-- **A run of a list of leaves** ends at the first that does not defer, with its outcome and its
state, or it is deferred by all of them. -/
theorem run_askAll_cases (askLeaf : α → ExceptT ε (StateM σ) (Option β)) (as : List α) (s : σ) :
    (∃ before a after s₁, as = before ++ a :: after ∧ DefersThrough askLeaf s before s₁ ∧
        ((askLeaf a).run s₁).1 ≠ .ok none ∧
        (askAll askLeaf as).run s = (askLeaf a).run s₁) ∨
      ∃ s₁, DefersThrough askLeaf s as s₁ ∧ (askAll askLeaf as).run s = (.ok none, s₁) := by
  induction as generalizing s with
  | nil => exact Or.inr ⟨s, .nil s, rfl⟩
  | cons a as ih =>
    by_cases ha : ((askLeaf a).run s).1 = .ok none
    · have hdefers : (askLeaf a).run s = (.ok none, ((askLeaf a).run s).2) := Prod.ext ha rfl
      rw [run_askAll_of_defers hdefers]
      rcases ih ((askLeaf a).run s).2 with ⟨before, b, after, s₁, rfl, hbefore, hb, hrun⟩ |
        ⟨s₁, hall, hrun⟩
      · exact Or.inl ⟨a :: before, b, after, s₁, rfl, .cons hdefers hbefore, hb, hrun⟩
      · exact Or.inr ⟨s₁, .cons hdefers hall, hrun⟩
    · exact Or.inl ⟨[], a, as, s, rfl, .nil s, ha, run_askAll_of_answers ha as⟩

/-- The outcome of a chain is that of its first leaf that does not defer. -/
theorem run_ask_of_answers {askLeaf : α → ExceptT ε (StateM σ) (Option β)} {c : Chain α}
    {before after : List α} {a : α} {s s₁ : σ} (hleaves : c.leaves = before ++ a :: after)
    (hbefore : DefersThrough askLeaf s before s₁) (ha : ((askLeaf a).run s₁).1 ≠ .ok none) :
    (c.ask askLeaf).run s = (askLeaf a).run s₁ := by
  rw [ask_eq_askAll, hleaves, run_askAll_append hbefore, run_askAll_of_answers ha]

/-- A chain defers if all its leaves do. -/
theorem run_ask_of_defers {askLeaf : α → ExceptT ε (StateM σ) (Option β)} {c : Chain α}
    {s s₁ : σ} (h : DefersThrough askLeaf s c.leaves s₁) :
    (c.ask askLeaf).run s = (.ok none, s₁) := by
  rw [ask_eq_askAll, ← List.append_nil c.leaves, run_askAll_append h]
  rfl

/-! ### Consultations -/

/-- A leaf that was consulted, in which context and about what. -/
structure Consultation (α κ : Type) where
  /-- The leaf. -/
  leaf : α
  /-- The context. -/
  context : κ
  /-- The directive. -/
  what : String

/-- A leaf that notes its consultation before it answers. -/
def noting (consult : α → κ → String → ExceptT ε (StateM σ) (Option β)) (context : κ)
    (what : String) (a : α) : ExceptT ε (StateM (List (Consultation α κ) × σ)) (Option β) :=
  ExceptT.mk fun st =>
    (((consult a context what).run st.2).1, st.1 ++ [⟨a, context, what⟩],
      ((consult a context what).run st.2).2)

section Noted

variable {consult : α → κ → String → ExceptT ε (StateM σ) (Option β)} {context : κ} {what : String}

theorem run_noting (a : α) (noted : List (Consultation α κ)) (s : σ) :
    (noting consult context what a).run (noted, s)
      = (((consult a context what).run s).1, noted ++ [⟨a, context, what⟩],
        ((consult a context what).run s).2) := rfl

/-- Leaves that defer also do so while they are noted, and all of them are. -/
theorem defersThrough_noting {as : List α} {s s₁ : σ}
    (h : DefersThrough (fun a => consult a context what) s as s₁)
    (noted : List (Consultation α κ)) :
    DefersThrough (noting consult context what) (noted, s) as
      (noted ++ as.map fun a => ⟨a, context, what⟩, s₁) := by
  induction h generalizing noted with
  | nil s => simpa using DefersThrough.nil (noted, s)
  | @cons s s₁ s₂ a as hdefers _ ih =>
    have hnoting : (noting consult context what a).run (noted, s)
        = (.ok none, noted ++ [⟨a, context, what⟩], s₁) := by
      rw [run_noting, hdefers]
    have hrest := ih (noted ++ [⟨a, context, what⟩])
    rw [List.append_assoc, List.singleton_append] at hrest
    exact .cons hnoting hrest

end Noted

end Chain

/-! ### Signed replies -/

section Signed

variable {γ κ ε σ : Type} {name : String}

/-- Whatever is replied carries this name. -/
def SignedBy (name : String) (asking : ExceptT ε (StateM σ) (Option Reply)) : Prop :=
  ∀ s reply, (asking.run s).1 = .ok (some reply) → reply.includer = name

/-- A function that gives a document, or `undefined`, as a leaf. -/
def functionLeaf (name : String) (give : κ → String → ExceptT ε (StateM σ) Value) (context : κ)
    (what : String) : ExceptT ε (StateM σ) (Option Reply) :=
  give context what >>= fun value => pure (given name value)

theorem signedBy_pure {reply? : Option Reply} (h : ∀ reply ∈ reply?, reply.includer = name) :
    SignedBy name (pure reply? : ExceptT ε (StateM σ) (Option Reply)) := by
  intro s reply hreply
  exact h reply (Except.ok.inj hreply)

theorem signedBy_given (value : Value) :
    SignedBy name (pure (given name value) : ExceptT ε (StateM σ) (Option Reply)) := by
  refine signedBy_pure fun reply hreply => ?_
  unfold given at hreply
  split at hreply
  · exact absurd hreply (by simp)
  · rw [← Option.mem_some.mp hreply]

theorem signedBy_none : SignedBy name (pure none : ExceptT ε (StateM σ) (Option Reply)) :=
  signedBy_pure fun _ h => absurd h (by simp)

theorem signedBy_throw (e : ε) :
    SignedBy name (throw e : ExceptT ε (StateM σ) (Option Reply)) := by
  intro s reply hreply
  cases hreply

/-- What comes last signs. -/
theorem signedBy_bind (asking : ExceptT ε (StateM σ) γ)
    {next : γ → ExceptT ε (StateM σ) (Option Reply)} (h : ∀ a, SignedBy name (next a)) :
    SignedBy name (asking >>= next) := by
  intro s reply hreply
  rw [ExceptT.run_bind] at hreply
  rcases ha : asking.run s with ⟨e | a, s₁⟩
  · simp only [bind, StateT.bind, ha] at hreply
    cases hreply
  · simp only [bind, StateT.bind, ha] at hreply
    exact h a s₁ reply hreply

theorem signedBy_functionLeaf (name : String) (give : κ → String → ExceptT ε (StateM σ) Value)
    (context : κ) (what : String) : SignedBy name (functionLeaf name give context what) :=
  signedBy_bind _ signedBy_given

theorem signedBy_documents (s : Surroundings) (held : Table Value) (what : String) :
    SignedBy name
      (pure (answerFromDocuments s name held what) : ExceptT ε (StateM σ) (Option Reply)) := by
  refine signedBy_pure fun reply hreply => ?_
  obtain ⟨value, -, rfl⟩ := Option.map_eq_some_iff.mp hreply
  rfl

/-- **A rule signs with the name of its list**, also what it hands on. -/
theorem signedBy_rule (s : Surroundings) (handOn : String → Asking (Option Reply)) (r : Rule)
    (what : String) : SignedBy name (r.answer s handOn name what) := by
  unfold Rule.answer
  cases r.action with
  | give value => exact signedBy_given value
  | defer => exact signedBy_none
  | fail error => exact signedBy_throw _
  | rest => exact signedBy_given _
  | relative => exact signedBy_given _
  | options => exact signedBy_bind _ signedBy_given
  | locate =>
    refine signedBy_bind _ fun place? => ?_
    cases place? with
    | none => exact signedBy_none
    | some place => exact signedBy_given _
  | redirect target =>
    refine signedBy_bind _ fun reply? => ?_
    cases reply? with
    | none => exact signedBy_none
    | some reply => exact signedBy_given _

/-- **A leaf signs its replies.** -/
theorem signedBy_answer (s : Surroundings) (handOn : String → Asking (Option Reply)) (leaf : Leaf)
    (what : String) : SignedBy leaf.name (leaf.answer s handOn what) := by
  cases leaf with
  | documents name held => exact signedBy_documents s held what
  | rules name listed =>
    refine signedBy_bind _ fun _ => ?_
    cases listed.find? (·.matches what) with
    | none => exact signedBy_none
    | some rule => exact signedBy_rule s handOn rule what

end Signed

/-! ### The whole of an asking -/

namespace Chain

variable {α κ ε σ : Type}

/-- **A chain behaves as the list of its leaves**, however it is nested. It consults them from left
to right, with the context and the directive that it was asked with, up to the first that does not
defer. The outcome of that leaf is the outcome of the chain, and so is the state that it leaves; a
reply is signed by the leaf, as the replies of functions and of all built-in leaves are. The chain
defers exactly if all its leaves do. Its name is made of theirs, and nothing but the list of leaves
can be told from outside. -/
theorem ask_consults_leaves (leafName : α → String)
    (consult : α → κ → String → ExceptT ε (StateM σ) (Option Reply)) (c : Chain α) (context : κ)
    (what : String) (s : σ) :
    let asked := (c.ask fun a => consult a context what).run s
    let noted := (c.ask (noting consult context what)).run ([], s)
    let note (a : α) : Consultation α κ := ⟨a, context, what⟩
    ((∃ before a after s₁, c.leaves = before ++ a :: after ∧
        DefersThrough (fun a => consult a context what) s before s₁ ∧
        asked = (consult a context what).run s₁ ∧ asked.1 ≠ .ok none ∧
        noted.2.1 = (before ++ [a]).map note ∧
        (SignedBy (leafName a) (consult a context what) →
          ∀ reply, asked.1 = .ok (some reply) → reply.includer = leafName a)) ∨
      ∃ s₁, DefersThrough (fun a => consult a context what) s c.leaves s₁ ∧
        asked = (.ok none, s₁) ∧ noted.2.1 = c.leaves.map note) ∧
    (asked.1 = .ok none ↔
      ∃ s₁, DefersThrough (fun a => consult a context what) s c.leaves s₁) ∧
    (noted.1 = asked.1 ∧ noted.2.2 = asked.2) ∧
    (∀ name (give : κ → String → ExceptT ε (StateM σ) Value),
      SignedBy name (functionLeaf name give context what)) ∧
    (∀ surroundings handOn (leaf : Leaf),
      SignedBy leaf.name (leaf.answer surroundings handOn what)) ∧
    c.name leafName = " -> ".intercalate (c.leaves.map leafName) ∧
    ∀ c' : Chain α, c'.leaves = c.leaves →
      (c'.ask fun a => consult a context what).run s = asked ∧
      (c'.ask (noting consult context what)).run ([], s) = noted ∧
      c'.name leafName = c.name leafName := by
  intro asked noted note
  -- name and asking are functions of the leaves, so the nesting is not seen
  have hsame : ∀ c' : Chain α, c'.leaves = c.leaves →
      (c'.ask fun a => consult a context what).run s = asked ∧
      (c'.ask (noting consult context what)).run ([], s) = noted ∧
      c'.name leafName = c.name leafName := by
    intro c' hleaves
    refine ⟨?_, ?_, ?_⟩
    · rw [ask_eq_askAll, hleaves, ← ask_eq_askAll]
    · rw [ask_eq_askAll, hleaves, ← ask_eq_askAll]
    · rw [name_eq_intercalate, name_eq_intercalate, hleaves]
  have hfunctions (name : String) (give : κ → String → ExceptT ε (StateM σ) Value) :=
    signedBy_functionLeaf name give context what
  have hbuiltIn (surroundings : Surroundings) (handOn : String → Asking (Option Reply))
    (leaf : Leaf) := signedBy_answer surroundings handOn leaf what
  have hname := name_eq_intercalate leafName c
  rcases run_askAll_cases (fun a => consult a context what) c.leaves s with
    ⟨before, a, after, s₁, hleaves, hbefore, ha, -⟩ | ⟨s₁, hall, -⟩
  · have hasked : asked = (consult a context what).run s₁ := run_ask_of_answers hleaves hbefore ha
    -- the noted leaves defer and answer as the others do, so that run splits at the same leaf
    have hnoted : noted = (asked.1, (before ++ [a]).map note, asked.2) := by
      rw [List.map_append, hasked]
      exact run_ask_of_answers hleaves (defersThrough_noting hbefore []) ha
    have hne : asked.1 ≠ .ok none := hasked ▸ ha
    have hsigns : SignedBy (leafName a) (consult a context what) →
        ∀ reply, asked.1 = .ok (some reply) → reply.includer = leafName a :=
      fun hsigned reply hreply => hsigned s₁ reply (hasked ▸ hreply)
    refine ⟨Or.inl ⟨before, a, after, s₁, hleaves, hbefore, hasked, hne, ?_, hsigns⟩, ⟨?_, ?_⟩,
      ⟨?_, ?_⟩, hfunctions, hbuiltIn, hname, hsame⟩
    · rw [hnoted]
    · exact fun h => absurd h hne
    · exact fun ⟨s₂, hall⟩ => congrArg Prod.fst (run_ask_of_defers hall)
    · rw [hnoted]
    · rw [hnoted]
  · have hasked : asked = (.ok none, s₁) := run_ask_of_defers hall
    have hnoted : noted = (.ok none, c.leaves.map note, s₁) :=
      run_ask_of_defers (defersThrough_noting hall [])
    refine ⟨Or.inr ⟨s₁, hall, hasked, ?_⟩, ⟨fun _ => ⟨s₁, hall⟩, fun _ => ?_⟩, ⟨?_, ?_⟩, hfunctions,
      hbuiltIn, hname, hsame⟩
    · rw [hnoted]
    · rw [hasked]
    · rw [hnoted, hasked]
    · rw [hnoted, hasked]

end Chain

end ConfigSource
