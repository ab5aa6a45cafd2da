import ConfigSource.Error.Report
import ConfigSource.Proofs.Calendar
import ConfigSource.Proofs.Table
import Mathlib.Data.List.Forall2

/-!
# Chains of causes

An error has a cause, which may be an error with a cause again, and so on. A report of a thrown
value follows this **chain** (`ConfigSource.Value.Chain`) and has a level for each of its values
(`ConfigSource.report_follows_causes`). What is written of the report is a chain as well, by its
member `cause`, and the two have the same length.

Which value comes next is decided by `undefined` alone: `null` and everything else that is no error
are causes, and the chain ends with them, since only an error has a cause
(`ConfigSource.Value.isError_of_mem_dropLast`).

A level gives an instant: an error of this library its own, everything else that of the report
(`ConfigSource.Value.reportedAt`). The two are told apart by what is written, since no two instants
have the same text (`ConfigSource.Reports.dates`).

The report is made by recursion on the value, with one branch for each kind of it. All branches are
one step (`ConfigSource.Value.exists_level`): a level that tells of the value, over the report of
the cause if there is one. A chain of any length and mixture follows from that step by induction on
the chain.
-/

namespace ConfigSource

/-! ### Chains -/

/-- **A chain**: a value, the value that comes next, and so on until none does. -/
inductive Value.Chain (next : Value → Option Value) : Value → List Value → Prop
  /-- The chain ends. -/
  | last {v : Value} (ends : next v = none) : Chain next v [v]
  /-- The chain goes on. -/
  | step {v w : Value} {vs : List Value} (comes : next v = some w) (rest : Chain next w vs) :
      Chain next v (v :: vs)

namespace Value.Chain

variable {next : Value → Option Value} {v : Value} {vs ws : List Value}

/-- A value has no two chains. -/
theorem unique (h : Chain next v vs) (h' : Chain next v ws) : vs = ws := by
  induction h generalizing ws with
  | last hnone =>
    cases h' with
    | last => rfl
    | step hsome => simp [hnone] at hsome
  | step hsome _ ih =>
    cases h' with
    | last hnone => simp [hsome] at hnone
    | step hsome' rest' =>
      obtain rfl := Option.some.inj (hsome.symm.trans hsome')
      rw [ih rest']

theorem ne_nil (h : Chain next v vs) : vs ≠ [] := by
  cases h <;> exact List.cons_ne_nil _ _

/-- All values of a chain but the last have one that comes next. -/
theorem isSome_of_mem_dropLast (h : Chain next v vs) :
    ∀ w ∈ vs.dropLast, (next w).isSome = true := by
  induction h with
  | last => simp
  | step hsome rest ih =>
    rw [List.dropLast_cons_of_ne_nil rest.ne_nil]
    exact List.forall_mem_cons.mpr ⟨by rw [hsome]; rfl, ih⟩

end Value.Chain

/-- What stands in place of a cause: `undefined` is none. -/
def Value.asCause? (v : Value) : Option Value := if v.isUndefined then none else some v

/-- **The cause of a value**: only an error has one. -/
def Value.cause? : Value → Option Value
  | .configError _ _ cause => cause.asCause?
  | .plainError _ _ cause => cause.asCause?
  | .aggregateError _ _ cause => cause.asCause?
  | _ => none

/-- A member of a record, if it is there. -/
def Value.member? (v : Value) (key : String) : Option Value :=
  match v with
  | .record members => Table.get? members key
  | _ => none

/-- The member in which a written level shows its cause. -/
def Value.shownCause? (v : Value) : Option Value := v.member? "cause"

/-! ### What a level says -/

namespace Report.Level

/-- **What a level has to tell of a value.** -/
inductive TellsOf (now : Int) (withStack : Bool) : Level → Value → Prop
  /-- An error of this library has its own code and context, and its own instant. -/
  | configError {head : ErrorHead} {context : Table Value} {cause : Value} {time : String}
      (raised : Calendar.isoText? head.raisedAt = some time) :
      TellsOf now withStack
        { name := head.name, code := head.code, message := head.message, context := context,
          operational := head.operational, timestamp := time,
          stack := if withStack then some (Value.stackHeader head.name head.message) else none }
        (.configError head context cause)
  /-- Any other error has its name and message, and the instant of the report. -/
  | plainError {name message : String} {cause : Value} {time : String}
      (reported : Calendar.isoText? now = some time) :
      TellsOf now withStack
        { name := name, code := "unknown", message := message, context := [],
          operational := false, timestamp := time,
          stack := if withStack then some (Value.stackHeader name message) else none }
        (.plainError name message cause)
  /-- So has an error that stands for several. -/
  | aggregateError {message : String} {errors : List Value} {cause : Value} {time : String}
      (reported : Calendar.isoText? now = some time) :
      TellsOf now withStack
        { name := "AggregateError", code := "unknown", message := message, context := [],
          operational := false, timestamp := time,
          stack := if withStack then some (Value.stackHeader "AggregateError" message) else none }
        (.aggregateError message errors cause)
  /-- A text is its own message. -/
  | text {s time : String} (reported : Calendar.isoText? now = some time) :
      TellsOf now withStack
        { name := "NonErrorThrown", code := "unknown", message := s,
          context := [("value", .text s)], operational := false, timestamp := time,
          stack := none }
        (.text s)
  /-- Of any other value that is no error there is no message. -/
  | other {v : Value} {time : String} (noError : v.isError = false) (noText : ∀ s, v ≠ .text s)
      (reported : Calendar.isoText? now = some time) :
      TellsOf now withStack
        { name := "NonErrorThrown", code := "unknown", message := "Unknown error",
          context := [("value", v)], operational := false, timestamp := time, stack := none }
        v

/-- **A record shows a level**: it has a member for everything that the level says, and no other
member, its cause apart. -/
structure ShownBy (l : Level) (shown : Value) : Prop where
  /-- The class. -/
  name : shown.member? "name" = some (.text l.name)
  /-- The code. -/
  code : shown.member? "code" = some (.text l.code)
  /-- The message. -/
  message : shown.member? "message" = some (.text l.message)
  /-- The context. -/
  context : shown.member? "context" = some (.record l.context)
  /-- Whether it can arise in a correct program. -/
  operational : shown.member? "isOperational" = some (.bool l.operational)
  /-- The text of the instant. -/
  timestamp : shown.member? "timestamp" = some (.text l.timestamp)
  /-- The stack, if there is one. -/
  stack : shown.member? "stack" = l.stack.map .text
  /-- There is nothing else. -/
  only : ∀ key, (shown.member? key).isSome = true → key ∈ ["name", "code", "message", "context",
    "isOperational", "timestamp", "cause", "stack"]

end Report.Level

/-- **A record reports a value.** -/
def Reports (now : Int) (withStack : Bool) (v shown : Value) : Prop :=
  ∃ level : Report.Level, level.TellsOf now withStack v ∧ level.ShownBy shown

/-- The instant that a report gives for a value: an error of this library has its own, and
everything else that of the report. -/
def Value.reportedAt (now : Int) : Value → Int
  | .configError head _ _ => head.raisedAt
  | _ => now

/-- **A record dates a value**: of all texts of instants it shows that of the value's own. -/
def Dates (now : Int) (v shown : Value) : Prop :=
  ∀ t s, Calendar.isoText? t = some s →
    (shown.member? "timestamp" = some (.text s) ↔ t = v.reportedAt now)

/-- An error of this library was raised at an instant that has a text. -/
def Value.RaisedInTime (v : Value) : Prop :=
  ∀ head context cause, v = .configError head context cause →
    Calendar.isValid head.raisedAt = true

/-! ### Instants -/

/-- The timestamp of a level is the text of its instant. -/
theorem Report.Level.TellsOf.isoText?_reportedAt {now : Int} {withStack : Bool}
    {level : Report.Level} {v : Value} (h : level.TellsOf now withStack v) :
    Calendar.isoText? (v.reportedAt now) = some level.timestamp := by
  cases h with
  | configError raised => exact raised
  | plainError reported => exact reported
  | aggregateError reported => exact reported
  | text reported => exact reported
  | other noError _ reported =>
    have hnow : v.reportedAt now = now := by
      unfold Value.reportedAt
      split
      · cases noError
      · rfl
    rw [hnow, reported]

/-- **What reports a value dates it.** -/
theorem Reports.dates {now : Int} {withStack : Bool} {v shown : Value}
    (h : Reports now withStack v shown) : Dates now v shown := by
  obtain ⟨level, htells, hshown⟩ := h
  have htime := htells.isoText?_reportedAt
  intro t s ht
  rw [hshown.timestamp]
  constructor
  · intro hsame
    obtain rfl : level.timestamp = s := by simpa using hsame
    exact Calendar.isoText?_inj ht htime
  · rintro rfl
    rw [Option.some.inj (htime.symm.trans ht)]

/-! ### One level -/

namespace Report

variable (level : Level)

/-- The keys of what stands behind the first members of a level. -/
theorem Level.keys_stackMember : Table.keys level.stackMember ⊆ ["stack"] := by
  unfold stackMember
  split <;> simp

/-- The members of a level show it, also where a cause stands before the stack. -/
theorem Level.shownBy_record (between : Table Value) (h : between.keys ⊆ ["cause"]) :
    level.ShownBy (.record (level.members ++ (between ++ level.stackMember))) := by
  refine ⟨rfl, rfl, rfl, rfl, rfl, rfl, ?_, fun key hkey => ?_⟩
  · have hbetween : "stack" ∉ between.keys := fun hin => by simpa using h hin
    rw [Value.member?, Table.get?_append_of_not_mem (by simp [members]),
      Table.get?_append_of_not_mem hbetween, stackMember]
    cases level.stack <;> rfl
  · rw [Value.member?, Table.isSome_get?_iff, Table.keys, List.map_append, List.map_append,
      List.mem_append, List.mem_append] at hkey
    rcases hkey with hkey | hkey | hkey
    · have hmembers : key ∈ ["name", "code", "message", "context", "isOperational", "timestamp"] :=
        hkey
      simp only [List.mem_cons, List.not_mem_nil, or_false] at hmembers ⊢
      tauto
    · simp [List.mem_singleton.mp (h hkey)]
    · simp [List.mem_singleton.mp (level.keys_stackMember hkey)]

theorem shownBy_last : level.ShownBy (toValue (.last level)) :=
  level.shownBy_record [] (List.nil_subset _)

theorem shownBy_causedBy (below : Report) : level.ShownBy (toValue (.causedBy level below)) :=
  level.shownBy_record [("cause", below.toValue)] (List.Subset.refl _)

theorem shownCause?_last : (toValue (.last level)).shownCause? = none := by
  have hstack : "cause" ∉ Table.keys level.stackMember := fun hin => by
    simpa using level.keys_stackMember hin
  rw [toValue, Value.shownCause?, Value.member?,
    Table.get?_append_of_not_mem (by simp [Level.members])]
  simpa [← Table.isSome_get?_iff] using hstack

theorem shownCause?_causedBy (below : Report) :
    (toValue (.causedBy level below)).shownCause? = some below.toValue := rfl

end Report

namespace Value

variable {v : Value} {now : Int}

theorem reportTime_of_isValid {t : Int} (h : Calendar.isValid t = true) :
    ∃ time, Calendar.isoText? t = some time ∧ reportTime t = .ok time := by
  have htime : Calendar.isoText? t = some _ := if_pos h
  exact ⟨_, htime, by rw [reportTime, htime]⟩

/-- Only errors have a cause. -/
theorem isError_of_cause? {cause : Value} (h : v.cause? = some cause) : v.isError = true := by
  cases v <;> first | rfl | cases h

/-- The report over a level goes on with that of the cause, if there is one. -/
theorem reportOver_eq (level : Report.Level) (cause : Value)
    (report : Value → Except Value Report) :
    reportOver level cause (report cause)
      = match cause.asCause? with
        | none => .ok (.last level)
        | some cause => (report cause).map (.causedBy level) := by
  unfold reportOver asCause?
  split <;> rfl

/-- **One step of a report**: a level that tells of the value, over the report of its cause if there
is one. -/
theorem exists_level (hnow : Calendar.isValid now = true) (hraised : v.RaisedInTime)
    (withStack : Bool) :
    ∃ level : Report.Level, level.TellsOf now withStack v ∧
      v.report now withStack
        = match v.cause? with
          | none => .ok (.last level)
          | some cause => (cause.report now withStack).map (.causedBy level) := by
  obtain ⟨time, htime, hreport⟩ := reportTime_of_isValid hnow
  cases v with
  | configError head context cause =>
    obtain ⟨time, htime, hreport⟩ := reportTime_of_isValid (hraised _ _ _ rfl)
    refine ⟨_, .configError htime, ?_⟩
    rw [report, hreport]
    exact reportOver_eq _ cause (report now withStack)
  | plainError name message cause =>
    refine ⟨_, .plainError htime, ?_⟩
    rw [report, hreport]
    exact reportOver_eq _ cause (report now withStack)
  | aggregateError message errors cause =>
    refine ⟨_, .aggregateError htime, ?_⟩
    rw [report, hreport]
    exact reportOver_eq _ cause (report now withStack)
  | text s =>
    refine ⟨_, .text htime, ?_⟩
    simp only [report, hreport]
    rfl
  | _ =>
    refine ⟨_, .other rfl (by simp) htime, ?_⟩
    simp only [report, hreport]
    rfl

/-! ### Whole chains -/

/-- The chain of an error goes on with that of its cause, unless that is `undefined`. -/
theorem exists_chain_over {cause : Value} (hv : v.cause? = cause.asCause?)
    (h : ∃ vs, Chain cause? cause vs) : ∃ vs, Chain cause? v vs := by
  obtain ⟨vs, hvs⟩ := h
  by_cases hundefined : cause.isUndefined = true
  · exact ⟨_, .last (hv.trans (if_pos hundefined))⟩
  · exact ⟨_, .step (hv.trans (if_neg hundefined)) hvs⟩

/-- **There is no endless chain of causes.** -/
theorem exists_chain : ∀ v : Value, ∃ vs, Chain cause? v vs
  | .configError _ _ cause => exists_chain_over rfl (exists_chain cause)
  | .plainError _ _ cause => exists_chain_over rfl (exists_chain cause)
  | .aggregateError _ _ cause => exists_chain_over rfl (exists_chain cause)
  | .undefined | .null | .bool _ | .number _ | .text _ | .list _ | .record _ =>
    ⟨_, .last rfl⟩

/-- Along a chain of causes everything but the last is an error. -/
theorem isError_of_mem_dropLast {vs : List Value} (h : Chain cause? v vs) :
    ∀ w ∈ vs.dropLast, w.isError = true := fun w hw => by
  obtain ⟨_, hcause⟩ := Option.isSome_iff_exists.mp (h.isSome_of_mem_dropLast w hw)
  exact isError_of_cause? hcause

/-- A report of a chain has a level for each of its values. -/
theorem report_of_chain {vs : List Value} (h : Chain cause? v vs)
    (hnow : Calendar.isValid now = true) (hraised : ∀ w ∈ vs, w.RaisedInTime) (withStack : Bool) :
    ∃ report shown, v.report now withStack = .ok report ∧
      Chain shownCause? report.toValue shown ∧
      List.Forall₂ (Reports now withStack) vs shown := by
  induction h with
  | last hnone =>
    obtain ⟨level, htells, hreport⟩ :=
      exists_level hnow (List.forall_mem_singleton.mp hraised) withStack
    rw [hnone] at hreport
    exact ⟨_, _, hreport, .last (Report.shownCause?_last level),
      .cons ⟨level, htells, Report.shownBy_last level⟩ .nil⟩
  | step hsome _ ih =>
    obtain ⟨hfirst, hrest⟩ := List.forall_mem_cons.mp hraised
    obtain ⟨below, shown, hbelow, hchain, hshown⟩ := ih hrest
    obtain ⟨level, htells, hreport⟩ := exists_level hnow hfirst withStack
    simp only [hsome, hbelow] at hreport
    exact ⟨_, _, hreport, .step (Report.shownCause?_causedBy level below) hchain,
      .cons ⟨level, htells, Report.shownBy_causedBy level below⟩ hshown⟩

end Value

/-- **A report follows the causes, level by level.** A thrown value has one chain of causes, in
which only the last can be no error. At an instant that has a text, and if that is so of the
instants at which the errors of this library in the chain were raised, the value is reported, and
what is written of the report is a chain of the same length by its member `cause`, whose records
report the values of the first chain one by one. They date them: an error of this library shows when
it was raised, and not when it was reported, unless that is the same instant. -/
theorem report_follows_causes {now : Int} (hnow : Calendar.isValid now = true) (withStack : Bool)
    (v : Value) :
    (∃! vs, Value.Chain Value.cause? v vs) ∧
      ∀ vs, Value.Chain Value.cause? v vs →
        (∀ w ∈ vs.dropLast, w.isError = true) ∧
          ((∀ w ∈ vs, w.RaisedInTime) →
            ∃ report shown, v.report now withStack = .ok report ∧
              Value.Chain Value.shownCause? report.toValue shown ∧
              List.Forall₂ (Reports now withStack) vs shown ∧
              List.Forall₂ (Dates now) vs shown) := by
  obtain ⟨vs, hvs⟩ := v.exists_chain
  refine ⟨⟨vs, hvs, fun _ h => h.unique hvs⟩, fun ws hws =>
    ⟨Value.isError_of_mem_dropLast hws, fun hraised => ?_⟩⟩
  obtain ⟨report, shown, hreport, hchain, hshown⟩ :=
    Value.report_of_chain hws hnow hraised withStack
  exact ⟨report, shown, hreport, hchain, hshown, hshown.imp fun _ _ h => h.dates⟩

/-- An error of this library, caused by one that is not, for which somebody threw `null`. It is
reported seven milliseconds before it was raised. -/
theorem report_follows_causes_to_null :
    let inner : Value := .plainError "TypeError" "inner" .null
    let outer : Value :=
      .configError ⟨"ConfigError", "outer", "Outer", true, 7⟩ [("key", .text "a")] inner
    Calendar.isValid 0 = true ∧ Value.Chain Value.cause? outer [outer, inner, .null] ∧
      (∀ w ∈ [outer, inner, .null], w.RaisedInTime) ∧
      ∃ report shown, outer.report 0 true = .ok report ∧
        Value.Chain Value.shownCause? report.toValue shown ∧
        List.Forall₂ (Reports 0 true) [outer, inner, .null] shown ∧
        List.Forall₂ (Dates 0) [outer, inner, .null] shown := by
  intro inner outer
  have hvalid : Calendar.isValid 0 = true := by decide
  have hchain : Value.Chain Value.cause? outer [outer, inner, .null] :=
    .step rfl (.step rfl (.last rfl))
  have hraised : ∀ w ∈ [outer, inner, .null], w.RaisedInTime := by
    simp [Value.RaisedInTime, outer, inner, Calendar.isValid, Calendar.lastInstant]
  exact ⟨hvalid, hchain, hraised,
    ((report_follows_causes hvalid true outer).2 _ hchain).2 hraised⟩

end ConfigSource
