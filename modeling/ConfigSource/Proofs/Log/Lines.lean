import ConfigSource.Log.Logger
import ConfigSource.Proofs.Json.RoundTrip
import Mathlib.Tactic.Common

/-!
# What stands in a line

A call **issues** an entry: at a level, with something to show. A logger **writes** the entries that
its threshold admits, one line for each, in the order in which they are issued, and a line shows
what its entry has to show (`ConfigSource.Log.Logger.Writes`).

* A line says at which level it was written before it says anything else, whatever contexts are
  bound to its logger; so lines are told apart by their levels
  (`ConfigSource.Log.Logger.Writes.filter_isAt`).
* Of its members with one key the last counts, so what a call says for itself overrides what was
  bound (`ConfigSource.Log.Line.value?_append_ofTable`). In a line of members alone that is what its
  entry has (`ConfigSource.Log.Line.entry?_of_members`).
* Whatever its pieces are, the entry of a line is what is read from its text, provided that the
  values of its members read back (`ConfigSource.Log.Line.entry?_eq_read`). Its level does, and so
  does every time that has a date (`ConfigSource.Log.Line.entry?_line`).
* Texts and truth values, and lists and records of them, stand in a line as they are
  (`ConfigSource.Value.IsPlain`).
-/

namespace ConfigSource

/-! ### Plain values -/

namespace Value

/-- A value that stands in an entry as it is, written at the instant `now`. -/
structure IsPlain (now : Int) (v : Value) : Prop where
  /-- It holds no errors to be reported. -/
  laidOut : layOut now v = v
  /-- It holds nothing that is left out. -/
  form : plainForm v = some v
  /-- It is there. -/
  defined : v.isUndefined = false

variable {now : Int}

theorem isPlain_text (s : String) : IsPlain now (.text s) :=
  ⟨by rw [layOut] <;> simp, by rw [plainForm] <;> simp, rfl⟩

theorem isPlain_bool (b : Bool) : IsPlain now (.bool b) :=
  ⟨by rw [layOut] <;> simp, by rw [plainForm] <;> simp, rfl⟩

theorem isPlain_list {items : List Value} (h : ∀ v ∈ items, v.IsPlain now) :
    IsPlain now (.list items) := by
  have hitems : layOutItems now items = items ∧ plainItems items = some items := by
    induction items with
    | nil => exact ⟨by rw [layOutItems], by rw [plainItems]⟩
    | cons v rest ih =>
      obtain ⟨hlaid, hform⟩ := ih fun v hv => h v (List.mem_cons_of_mem _ hv)
      have hv := h v List.mem_cons_self
      exact ⟨by rw [layOutItems, hv.laidOut, hlaid],
        by simp [plainItems, hv.form, hform, orNull, hv.defined]⟩
  exact ⟨by rw [layOut, hitems.1], by rw [plainForm, hitems.2, Option.map_some], rfl⟩

theorem isPlain_record {members : Table Value} (h : ∀ m ∈ members, m.2.IsPlain now) :
    IsPlain now (.record members) := by
  have hmembers : layOutMembers now members = members ∧ plainMembers members = some members := by
    induction members with
    | nil => exact ⟨by rw [layOutMembers], by rw [plainMembers]⟩
    | cons m rest ih =>
      obtain ⟨hlaid, hform⟩ := ih fun m hm => h m (List.mem_cons_of_mem _ hm)
      have hm := h m List.mem_cons_self
      exact ⟨by rw [layOutMembers, hm.laidOut, hlaid],
        by simp [plainMembers, hm.form, hform, memberOf, hm.defined]⟩
  exact ⟨by rw [layOut, hmembers.1], by rw [plainForm, hmembers.2, Option.map_some], rfl⟩

theorem isPlain_texts (texts : List String) : IsPlain now (.list (texts.map .text)) :=
  isPlain_list fun _ hv => by
    obtain ⟨s, -, rfl⟩ := List.mem_map.mp hv
    exact isPlain_text s

/-- **A plain value is written as it is.** -/
theorem IsPlain.logged_eq {v : Value} (h : v.IsPlain now) : v.logged now = v := by
  rw [logged, h.laidOut, h.form, Option.some_or, Option.getD_some]

end Value

namespace Log

/-! ### Reading a line -/

theorem Level.severity_injective : Function.Injective Level.severity := by
  intro l l' h
  cases l <;> cases l' <;> first | rfl | exact absurd h (by decide)

namespace Line

/-- Whether the line was written at a level: that is what stands in it first. -/
def isAt (level : Level) (line : Line) : Bool :=
  match line with
  | .member "level" (.number n) :: _ => n == .ofInt level.severity
  | _ => false

/-- What stands in the line under a key. -/
def value? (line : Line) (key : String) : Option Value :=
  (Table.ofList (line.filterMap Piece.member?)).get? key

/-- A line was written at one level. -/
theorem isAt_of_isAt {line : Line} {level : Level} (h : isAt level line = true) (other : Level) :
    isAt other line = decide (level = other) := by
  have hsame : (level.severity : Int) = other.severity ↔ level = other := by
    rw [Int.natCast_inj, Level.severity_injective.eq_iff]
  unfold isAt at h ⊢
  split at h
  · next n _ =>
    rw [eq_of_beq h, Bool.eq_iff_iff, decide_eq_true_iff, ← hsame]
    simp [Decimal.ofInt]
  · cases h

/-- **A line was written at the level of its call.** -/
theorem isAt_line (now : Int) (level : Level) (contexts details : List Piece) (message : Value) :
    isAt level (Log.line now level contexts details message) = true := by
  simp [isAt, Log.line]

theorem value?_append (front back : Line) (key : String) :
    value? (front ++ back) key = (value? back key).or (value? front key) := by
  simp only [value?, Table.get?_ofList, List.filterMap_append, List.reverse_append,
    List.find?_append]
  cases (back.filterMap Piece.member?).reverse.find? fun m => m.1 == key <;> rfl

theorem filterMap_member?_ofTable (t : Table Value) :
    (Piece.ofTable t).filterMap Piece.member? = t := by
  simp [Piece.ofTable, List.filterMap_map, Function.comp_def, Piece.member?]

/-- **What stands last counts**, whatever stands before it under its keys. -/
theorem value?_append_ofTable (front : Line) {t : Table Value} (h : t.keys.Nodup)
    {m : String × Value} (hm : m ∈ t) : value? (front ++ Piece.ofTable t) m.1 = some m.2 := by
  rw [value?_append, value?, filterMap_member?_ofTable, Table.get?_ofList_of_mem h hm,
    Option.some_or]

/-- **A line of members alone has an entry**, and what stands under a key is what the entry has
there. -/
theorem entry?_of_members {line : Line} (h : ∀ piece ∈ line, piece.member?.isSome = true) :
    ∃ entry, line.entry? = some entry ∧ ∀ key, entry.get? key = line.value? key := by
  have hall : line.mapM Piece.member? = some (line.filterMap Piece.member?) := by
    induction line with
    | nil => rfl
    | cons piece rest ih =>
      obtain ⟨m, hm⟩ := Option.isSome_iff_exists.mp (h piece List.mem_cons_self)
      rw [List.mapM_cons, hm, ih fun piece hp => h piece (List.mem_cons_of_mem _ hp),
        List.filterMap_cons_some hm]
      rfl
  refine ⟨_, ?_, fun key => rfl⟩
  unfold entry?
  rw [hall]

/-! ### Reading its text -/

/-- What is read from the text of a line. -/
def read? (line : Line) : Option Entry :=
  match Json.read? line.text with
  | some (.record members) => some members
  | _ => none

/-- Pieces that are members are those of a table. -/
theorem eq_ofTable_of_mapM {line : Line} {members : Table Value}
    (h : line.mapM Piece.member? = some members) : line = Piece.ofTable members := by
  induction line generalizing members with
  | nil =>
    cases h
    rfl
  | cons piece rest ih =>
    rw [List.mapM_cons] at h
    obtain ⟨m, hm, h⟩ := Option.bind_eq_some_iff.mp h
    obtain ⟨others, hothers, h⟩ := Option.bind_eq_some_iff.mp h
    cases h
    cases piece with
    | member key v =>
      cases hm
      rw [ih hothers]
      rfl
    | verbatim text => cases hm

/-- **The entry is what is read from the text of the line**, also where all of its pieces are
members, provided that their values read back. -/
theorem entry?_eq_read {line : Line} (h : ∀ m ∈ line.filterMap Piece.member?, m.2.ReadsBack) :
    line.entry? = line.read? := by
  unfold entry?
  cases hmembers : line.mapM Piece.member? with
  | none => rfl
  | some members =>
    obtain rfl := eq_ofTable_of_mapM hmembers
    rw [filterMap_member?_ofTable] at h
    have htext : text (Piece.ofTable members) = Json.recordOf (members.map Json.memberText) :=
      congrArg Json.recordOf (List.map_map ..)
    rw [read?, htext, Json.read?_recordOf h]

/-- In the line of a call this is asked of contexts, details and message only: its level reads back,
and so does its time, which 53 binary digits can hold as long as it has a date. -/
theorem entry?_line {now : Int} {contexts details : List Piece} {message : Value}
    (hnow : now.natAbs < 2 * Binary.leastFull)
    (hcontexts : ∀ m ∈ contexts.filterMap Piece.member?, m.2.ReadsBack)
    (hdetails : ∀ m ∈ details.filterMap Piece.member?, m.2.ReadsBack) (hmessage : message.ReadsBack)
    (level : Level) :
    entry? (line now level contexts details message)
      = read? (line now level contexts details message) := by
  refine entry?_eq_read fun m hm => ?_
  have hlevel : (level.severity : Int).natAbs < 2 * Binary.leastFull := by
    cases level <;> decide
  simp only [line, List.filterMap_append, List.mem_append, List.filterMap_cons, List.filterMap_nil,
    Piece.member?, List.mem_cons, List.not_mem_nil, or_false] at hm
  rcases hm with (((rfl | rfl) | hm) | hm) | rfl
  · exact .number (Decimal.readsBack_ofInt hlevel)
  · exact .number (Decimal.readsBack_ofInt hnow)
  · exact hcontexts m hm
  · exact hdetails m hm
  · exact hmessage

end Line

/-! ### Issuing and writing -/

/-- An entry that is issued. -/
structure Issued where
  /-- How severe it is. -/
  level : Level
  /-- What it has to show. -/
  shown : Table Value

/-- A line is that of an issued entry. -/
def Line.Shows (line : Line) (issued : Issued) : Prop :=
  line.isAt issued.level = true ∧ ∀ m ∈ issued.shown, line.value? m.1 = some m.2

/-- Lines show under a key what their entries have to show there. -/
theorem Line.map_value?_of_shows {lines : List Line} {entries : List Issued}
    (h : List.Forall₂ Line.Shows lines entries) {key : String}
    (hkey : ∀ entry ∈ entries, (Table.get? entry.shown key).isSome = true) :
    lines.map (·.value? key) = entries.map fun entry => Table.get? entry.shown key := by
  induction h with
  | nil => rfl
  | @cons line entry rest entries hshows _ ih =>
    obtain ⟨v, hv⟩ := Option.isSome_iff_exists.mp (hkey entry List.mem_cons_self)
    rw [List.map_cons, List.map_cons, ih fun entry he => hkey entry (List.mem_cons_of_mem _ he),
      hv, hshows.2 (key, v) (Table.mem_of_get? hv)]

namespace Logger

/-- Whether a logger writes what is logged at a level. -/
def admits : Logger → Level → Bool
  | null, _ => false
  | bound threshold _ _, level => threshold.admits level

/-- **The lines are those of the issued entries that the logger admits**, and no others. -/
def Writes (logger : Logger) (lines : List Line) (issued : List Issued) : Prop :=
  List.Forall₂ Line.Shows lines (issued.filter fun entry => logger.admits entry.level)

variable {logger : Logger} {lines lines' : List Line} {issued issued' : List Issued}

theorem Writes.nil : logger.Writes [] [] := List.Forall₂.nil

theorem Writes.append (h : logger.Writes lines issued) (h' : logger.Writes lines' issued') :
    logger.Writes (lines ++ lines') (issued ++ issued') := by
  rw [Writes, List.filter_append]
  exact List.rel_append h h'

/-- **The lines at a level are those of the entries at it**, if the logger admits it. -/
theorem Writes.filter_isAt (h : logger.Writes lines issued) (level : Level) :
    List.Forall₂ Line.Shows (lines.filter (Line.isAt level))
      (if logger.admits level then issued.filter fun entry => decide (entry.level = level)
        else []) := by
  have hentries : (if logger.admits level then
        issued.filter fun entry => decide (entry.level = level) else [])
      = (issued.filter fun entry => logger.admits entry.level).filter
        fun entry => decide (entry.level = level) := by
    rw [List.filter_filter]
    split
    · next hadmits =>
      refine List.filter_congr fun entry _ => ?_
      by_cases hlevel : entry.level = level <;> simp [hlevel, hadmits]
    · next hadmits =>
      refine (List.filter_eq_nil_iff.mpr fun entry _ => ?_).symm
      by_cases hlevel : entry.level = level <;> simp [hlevel, hadmits]
  rw [hentries]
  exact List.rel_filter (fun _ _ hshows => iff_of_eq
    (congrArg (· = true) (Line.isAt_of_isAt hshows.1 level))) h

/-- **A call writes the entry that it issues**: what was bound to its logger last, what the call has
to say, and the message, provided that all of it is plain and under different keys. -/
theorem writes_note (logger : Logger) (context : Table Value) (now : Int) (level : Level)
    (message : String) {members : Table Value}
    (hkeys : (context ++ members ++ [("msg", Value.text message)]).keys.Nodup)
    (hplain : ∀ m ∈ members, m.2.IsPlain now) :
    logger.Writes ((logger.bind (Piece.ofTable context)).note now level message members)
      [⟨level, context ++ members ++ [("msg", .text message)]⟩] := by
  cases logger with
  | null => exact List.Forall₂.nil
  | bound threshold style contexts =>
    have hnoted : noted now members = Piece.ofTable members := by
      rw [noted, List.map_congr_left fun m hm => by rw [(hplain m hm).logged_eq], List.map_id']
    simp only [Writes, bind, note, hnoted, List.filter_cons, List.filter_nil, admits]
    split
    · refine .cons ⟨Line.isAt_line _ _ _ _ _, fun m hm => ?_⟩ .nil
      have hline : line now level (contexts ++ Piece.ofTable context) (Piece.ofTable members)
          (.text message) = [.member "level" (.number (.ofInt level.severity)),
            .member "time" (.number (.ofInt now))] ++ contexts
              ++ Piece.ofTable (context ++ members ++ [("msg", .text message)]) := by
        simp [line, Piece.ofTable]
      rw [hline]
      exact Line.value?_append_ofTable _ hkeys hm
    · exact .nil

end Logger

end Log

end ConfigSource
