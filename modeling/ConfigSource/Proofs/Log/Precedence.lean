import ConfigSource.Proofs.Log.Family

/-!
# What an entry shows of contexts and details

A member can be given in the details of a call and in every context that is bound to its logger.
Details come first, then the contexts, from the last that was bound up to the root; a member that is
`undefined` is passed over. This is the **precedence** of a member
(`ConfigSource.Log.given?`). It is said of the values, and compared with the entry of a line
(`ConfigSource.Log.Entry.Follows`), which is what is read from the text of the line where its values
read back (`ConfigSource.Log.Line.entry?_eq_read`).

The two agree where keys are **legible** (`ConfigSource.Log.Legible`): no member goes by a built-in
name, and the keys of a context need not be quoted. Then every piece of a line is a member, and what
pieces have under a key is put together with the pieces (`ConfigSource.Log.Line.Reads.append`). A
lineage is followed from the root down (`ConfigSource.Log.Logger.reads_of_descend`), and what a call
shows depends on nothing else of the tree (`ConfigSource.Log.follows_lineage`). Details that look
like a request say one thing, which is that they are one.

Elsewhere they can differ. The keys of a context are copied into the line, so that a key with a
quotation mark in it says something else there, and can hide what was bound before
(`ConfigSource.Log.not_follows_of_quotedKey`). A member with a built-in name is written as something
that has nothing to do with its value (`ConfigSource.Log.not_follows_of_builtinName`).
-/

namespace ConfigSource

/-- The value of a member, unless that is `undefined`. -/
def Table.defined? (t : Table Value) (key : String) : Option Value :=
  (t.get? key).filter fun v => !v.isUndefined

namespace Table

variable {t : Table Value} {key k : String} {v : Value}

theorem defined?_cons_of_ne (h : k ≠ key) (v : Value) (t : Table Value) :
    defined? ((k, v) :: t) key = t.defined? key := by
  rw [defined?, get?, if_neg h, ← defined?]

theorem defined?_of_not_mem (h : key ∉ t.keys) : t.defined? key = none := by
  rw [← isSome_get?_iff, Option.not_isSome_iff_eq_none] at h
  rw [defined?, h]
  rfl

theorem defined?_cons_self (h : v.isUndefined = false) (t : Table Value) :
    defined? ((key, v) :: t) key = some v := by
  rw [defined?, get?, if_pos rfl, Option.filter_some, h]
  rfl

/-- A member that is `undefined` is not there. -/
theorem defined?_cons_of_undefined (hkeys : k ∉ t.keys) (h : v.isUndefined = true) :
    defined? ((k, v) :: t) key = t.defined? key := by
  by_cases hk : k = key
  · subst hk
    rw [defined?_of_not_mem hkeys, defined?, get?, if_pos rfl, Option.filter_some, h]
    rfl
  · exact defined?_cons_of_ne hk v t

theorem defined?_restrict (keep : String → Bool) (t : Table Value) (key : String) :
    defined? (t.restrict keep) key = if keep key then t.defined? key else none := by
  rw [defined?, defined?, get?_restrict]
  cases keep key <;> rfl

/-- The reading order makes no difference to what a table defines. -/
theorem defined?_ordered (h : t.keys.Nodup) (key : String) :
    defined? (ordered t) key = t.defined? key :=
  congrArg (Option.filter _) (get?_of_perm (ordered_perm t) (nodup_keys_ordered h) key)

end Table

namespace Log

/-! ### Precedence -/

/-- What a binding gives a key. -/
def Binding.gives? (b : Binding) (key : String) : Option Value :=
  ((bindings b.context.shownMembers).defined? key).map (·.logged b.instant)

/-- What a lineage gives a key: the last binding counts that gives it anything. -/
def inherited? (lineage : List Binding) (key : String) : Option Value :=
  lineage.reverse.findSome? (·.gives? key)

theorem inherited?_append (lineage later : List Binding) (key : String) :
    inherited? (lineage ++ later) key = (inherited? later key).or (inherited? lineage key) := by
  rw [inherited?, List.reverse_append, List.findSome?_append, inherited?, inherited?]

@[simp] theorem inherited?_singleton (b : Binding) (key : String) :
    inherited? [b] key = b.gives? key := by
  cases h : b.gives? key <;> simp [inherited?, h]

theorem inherited?_pair (b b' : Binding) (key : String) :
    inherited? [b, b'] key = (b'.gives? key).or (b.gives? key) := by
  rw [← inherited?_singleton b, ← inherited?_singleton b', ← inherited?_append,
    List.singleton_append]

/-- **What a call gives a key**: its details say it, or else the lineage does. -/
def given? (lineage : List Binding) (now : Int) (details : Table Value) (key : String) :
    Option Value :=
  ((details.defined? key).map (·.logged now)).or (inherited? lineage key)

/-- A context that is a record gives what it holds, except under the keys that configure a
logger. -/
theorem Binding.gives?_record {members : Table Value} (h : members.keys.Nodup) (instant : Int)
    (key : String) :
    Binding.gives? ⟨instant, .record members⟩ key
      = if reservedKeys.contains key then none
        else (members.defined? key).map (·.logged instant) := by
  rw [gives?, bindings, Value.shownMembers, Table.defined?_restrict, Table.defined?_ordered h]
  cases reservedKeys.contains key <;> rfl

/-- The keys of an entry that say something else: what a line begins and ends with, where it comes
from, and the error that is shown in full. -/
def ownKeys : List String := ["level", "time", "pid", "hostname", "msg", errorKey]

/-- **An entry shows what is given, and the message.** -/
structure Entry.Follows (entry : Entry) (given : String → Option Value) (message : String) :
    Prop where
  /-- Under all keys but its own it has what is given, and nothing where nothing is. -/
  members : ∀ key, key ∉ ownKeys → entry.get? key = given key
  /-- The message is that of the call. -/
  message : entry.get? "msg" = some (.text message)

/-- A call wrote one line, and its entry shows what is given. -/
def Outcome.Follows (outcome : Outcome) (given : String → Option Value) (message : String) : Prop :=
  ∃ line entry, outcome = .wrote [line] ∧ line.entry? = some entry ∧ entry.Follows given message

/-! ### Pieces that are members -/

/-- The members of a table are written under their keys: no member has a built-in name, and every
key stands in a line as it is.

This is enough for an entry to show them, and more than is needed. What some built-in names make of
a value can be the text of that very value: a member `constructor` that is the number 5 is not
legible, and is written as it should be. -/
structure Legible (site : Site) (t : Table Value) : Prop where
  /-- No key is doubled. -/
  nodup : t.keys.Nodup
  /-- No member has a built-in name. -/
  ordinary : ∀ m ∈ t, m.2.isUndefined = false → BuiltinName.ofName? m.1 = none
  /-- Every key stands in a line as it is. -/
  plain : ∀ m ∈ t, m.2.isUndefined = false → site.isPlain m.1 = true

instance (site : Site) (t : Table Value) : Decidable (Legible site t) :=
  decidable_of_iff (t.keys.Nodup ∧
      (∀ m ∈ t, m.2.isUndefined = false → BuiltinName.ofName? m.1 = none) ∧
      ∀ m ∈ t, m.2.isUndefined = false → site.isPlain m.1 = true)
    ⟨fun h => ⟨h.1, h.2.1, h.2.2⟩, fun h => ⟨h.nodup, h.ordinary, h.plain⟩⟩

theorem Legible.of_perm {site : Site} {t t' : Table Value} (h : Legible site t)
    (hperm : t.Perm t') : Legible site t' :=
  ⟨(hperm.map Prod.fst).nodup_iff.mp h.nodup, fun m hm => h.ordinary m (hperm.mem_iff.mpr hm),
    fun m hm => h.plain m (hperm.mem_iff.mpr hm)⟩

/-- A legible record is a legible context. -/
theorem Legible.bindings {members : Table Value} (h : Legible .context members) :
    Legible .context (bindings (Value.record members).shownMembers) := by
  have hordered := h.of_perm (Table.ordered_perm members).symm
  exact ⟨hordered.nodup.sublist (List.filter_sublist.map _),
    fun m hm => hordered.ordinary m (List.mem_of_mem_filter hm),
    fun m hm => hordered.plain m (List.mem_of_mem_filter hm)⟩

theorem Legible.tail {site : Site} {m : String × Value} {t : Table Value}
    (h : Legible site (m :: t)) : Legible site t :=
  ⟨(List.nodup_cons.mp h.nodup).2, fun m' hm' => h.ordinary m' (List.mem_cons_of_mem _ hm'),
    fun m' hm' => h.plain m' (List.mem_cons_of_mem _ hm')⟩

namespace Line

/-- Pieces that are members, and what they have under the keys other than that of an error. -/
structure Reads (line : Line) (given : String → Option Value) : Prop where
  /-- Every piece is a member. -/
  members : ∀ piece ∈ line, piece.member?.isSome = true
  /-- What stands under a key. -/
  values : ∀ key, key ≠ errorKey → line.value? key = given key

theorem reads_nil : Reads [] fun _ => none := ⟨fun _ h => absurd h List.not_mem_nil, fun _ _ => rfl⟩

/-- **Later pieces hide what they have under their keys.** -/
theorem Reads.append {front back : Line} {given given' : String → Option Value}
    (h : Reads front given) (h' : Reads back given') :
    Reads (front ++ back) fun key => (given' key).or (given key) where
  members := List.forall_mem_append.mpr ⟨h.members, h'.members⟩
  values := fun key hkey => by rw [value?_append, h.values key hkey, h'.values key hkey]

theorem Reads.congr {line : Line} {given given' : String → Option Value} (h : Reads line given)
    (hsame : ∀ key, key ≠ errorKey → given key = given' key) : Reads line given' :=
  ⟨h.members, fun key hkey => (h.values key hkey).trans (hsame key hkey)⟩

theorem reads_member (key : String) (v : Value) :
    Reads [.member key v] fun other => if key = other then some v else none :=
  ⟨fun piece hpiece => by rw [List.mem_singleton.mp hpiece]; rfl, fun _ _ => rfl⟩

end Line

/-- What a member becomes that has a value and a legible key: the error of a call may be refused,
everything else is written. -/
theorem Site.piece_of_ordinary {site : Site} {key : String} {v : Value}
    (hu : v.isUndefined = false) (hordinary : BuiltinName.ofName? key = none)
    (hplain : site.isPlain key = true) (style : CauseStyle) (now : Int) :
    (∃ w, site.piece style now key v = .ok [.member key w] ∧
      (key ≠ errorKey → w = v.logged now)) ∨
    key = errorKey ∧ ∃ e, v.errorRecord style = .error e ∧
      site.piece style now key v = .error e := by
  have hpiece : site.piece style now key v
      = (if key = errorKey then (v.errorRecord style).map fun shown => .value (shown.logged now)
        else .ok (.value (v.logged now))).map (site.pieceOf key) := by
    simp [piece, serialize, hu, hordinary]
  have hmember (w : Value) : site.pieceOf key (.value w) = [.member key w] := if_pos hplain
  by_cases hkey : key = errorKey
  · rw [hpiece, if_pos hkey]
    cases hrecord : v.errorRecord style with
    | ok shown => exact Or.inl ⟨_, congrArg Except.ok (hmember _), fun hne => absurd hkey hne⟩
    | error e => exact Or.inr ⟨hkey, e, rfl, rfl⟩
  · rw [hpiece, if_neg hkey]
    exact Or.inl ⟨_, congrArg Except.ok (hmember _), fun _ => rfl⟩

/-- **What a table becomes**: pieces that have what it defines, unless the error that it is to show
in full is refused. -/
theorem Site.pieces_of_legible {site : Site} {t : Table Value} (h : Legible site t)
    (style : CauseStyle) (now : Int) :
    (∃ pieces, site.pieces style now t = .ok pieces ∧
      Line.Reads pieces fun key => (t.defined? key).map (·.logged now)) ∨
    ∃ v e, t.defined? errorKey = some v ∧ v.errorRecord style = .error e ∧
      site.pieces style now t = .error e := by
  induction t with
  | nil => exact Or.inl ⟨[], rfl, Line.reads_nil⟩
  | cons m rest ih =>
    obtain ⟨k, v⟩ := m
    have hk : k ∉ Table.keys rest := (List.nodup_cons.mp h.nodup).1
    cases hu : v.isUndefined with
    | true =>
      have hpieces : site.pieces style now ((k, v) :: rest) = site.pieces style now rest := by
        simp only [Site.pieces, Site.piece, serialize, hu, if_true]
        cases site.pieces style now rest <;> rfl
      simp only [hpieces, Table.defined?_cons_of_undefined hk hu]
      exact ih h.tail
    | false =>
      rcases Site.piece_of_ordinary hu (h.ordinary _ List.mem_cons_self hu)
        (h.plain _ List.mem_cons_self hu) style now with ⟨w, hfirst, hw⟩ | ⟨rfl, e, hrecord, hfirst⟩
      · rcases ih h.tail with ⟨others, hrest, hreads⟩ | ⟨v', e, hdefined, hrecord, hrest⟩
        · refine Or.inl ⟨[.member k w] ++ others, by rw [pieces, hfirst, hrest]; rfl, ?_⟩
          refine ((Line.reads_member k w).append hreads).congr fun key hkey => ?_
          by_cases hsame : k = key
          · subst hsame
            rw [Table.defined?_of_not_mem hk, Table.defined?_cons_self hu, if_pos rfl, hw hkey]
            rfl
          · rw [Table.defined?_cons_of_ne hsame, if_neg hsame, Option.or_none]
        · refine Or.inr ⟨v', e, ?_, hrecord, by rw [pieces, hfirst, hrest]; rfl⟩
          rw [Table.defined?_cons_of_ne _ v, hdefined]
          rintro rfl
          rw [Table.defined?_of_not_mem hk] at hdefined
          cases hdefined
      · exact Or.inr ⟨v, e, Table.defined?_cons_self hu rest, hrecord, by rw [pieces, hfirst]; rfl⟩

/-! ### Lineages -/

/-- A context that is bound becomes pieces that have what the binding gives. -/
theorem reads_of_contextPieces {style : CauseStyle} {b : Binding} {pieces : List Piece}
    (hlegible : Legible .context (bindings b.context.shownMembers))
    (h : contextPieces style b.instant b.context = .ok pieces) :
    Line.Reads pieces (b.gives? ·) := by
  simp only [contextPieces] at h
  split at h
  · cases h
  · split at h
    · cases h
    · rcases Site.pieces_of_legible hlegible style b.instant with
        ⟨made, hok, hreads⟩ | ⟨-, e, -, -, herror⟩
      · rw [hok] at h
        cases h
        exact hreads
      · rw [herror] at h
        cases h

/-- **A legible context without an error can be bound**, if it can be asked for its keys. -/
theorem Logger.exists_child (context : Value) (hbindable : isBindable context = true)
    (hkeys : hidesKeys context.shownMembers = false)
    (hlegible : Legible .context (bindings context.shownMembers))
    (herr : (bindings context.shownMembers).defined? errorKey = none) (l : Logger) (now : Int) :
    ∃ made, l.child now context = .ok made := by
  cases l with
  | null => exact ⟨null, rfl⟩
  | bound threshold style contexts =>
    rcases Site.pieces_of_legible hlegible style now with
      ⟨pieces, hpieces, -⟩ | ⟨v, e, hdefined, -⟩
    · refine ⟨bound threshold style (contexts ++ pieces), ?_⟩
      simp [child, contextPieces, hbindable, hkeys, hpieces, Except.map]
    · rw [herr] at hdefined
      cases hdefined

/-- **What is bound from the root down**: pieces that have what the last binding gives that gives
anything. -/
theorem Logger.reads_of_descend {threshold : Threshold} {style : CauseStyle}
    {lineage : List Binding} {contexts : List Piece} {given : String → Option Value}
    (hcontexts : Line.Reads contexts given)
    (hlineage : ∀ b ∈ lineage, Legible .context (bindings b.context.shownMembers)) {l : Logger}
    (h : (bound threshold style contexts).descend lineage = .ok l) :
    ∃ contexts', l = bound threshold style contexts' ∧
      Line.Reads contexts' fun key => (inherited? lineage key).or (given key) := by
  induction lineage generalizing contexts given with
  | nil =>
    cases h
    exact ⟨contexts, rfl, hcontexts⟩
  | cons b lineage ih =>
    obtain ⟨hb, hrest⟩ := List.forall_mem_cons.mp hlineage
    obtain ⟨made, hmade, hlater⟩ := exists_child_of_descend h
    obtain ⟨more, hpieces, rfl⟩ := exists_pieces_of_child hmade
    have hreads := reads_of_contextPieces hb hpieces
    obtain ⟨contexts', hl, hall⟩ := ih (hcontexts.append hreads) hrest hlater
    refine ⟨contexts', hl, hall.congr fun key _ => ?_⟩
    rw [← List.singleton_append, inherited?_append, inherited?_singleton, Option.or_assoc]

/-! ### Calls -/

section Calls

variable {now : Int} {level : Level} {message : String} {members : Table Value}

/-- **A line reads as what is bound, what the call says, and the message.** -/
theorem follows_line (now : Int) (level : Level) (message : String)
    {contexts details : List Piece} {bound said : String → Option Value}
    (hcontexts : Line.Reads contexts bound) (hdetails : Line.Reads details said) :
    ∃ entry, Line.entry? (line now level contexts details (.text message)) = some entry ∧
      entry.Follows (fun key => (said key).or (bound key)) message := by
  have hreads := ((((Line.reads_member "level" (.number (.ofInt level.severity))).append
    (Line.reads_member "time" (.number (.ofInt now)))).append hcontexts).append hdetails).append
    (Line.reads_member "msg" (.text message))
  obtain ⟨entry, hentry, hget⟩ := Line.entry?_of_members hreads.members
  refine ⟨entry, hentry, fun key hkey => ?_, ?_⟩
  · simp only [ownKeys, List.mem_cons, List.not_mem_nil, or_false, not_or] at hkey
    obtain ⟨hlevel, htime, -, -, hmsg, herr⟩ := hkey
    rw [hget, hreads.values key herr, if_neg (Ne.symm hmsg), if_neg (Ne.symm htime),
      if_neg (Ne.symm hlevel)]
    simp
  · rw [hget, hreads.values "msg" (by decide), if_pos rfl, Option.some_or]

/-- **What a call writes** whose details say a legible table and leave the message alone: an entry
that shows what they say and else what is bound, unless the error that is to be shown in full is
refused. -/
theorem follows_log (now : Int) (level : Level) (message : String) {threshold : Threshold}
    (style : CauseStyle) {contexts : List Piece} {bound : String → Option Value}
    (hcontexts : Line.Reads contexts bound) {details : Value}
    (hdetails : Legible .details (detailsOf details))
    (hmessage : messageOf message details = .text message)
    (hadmits : threshold.admits level = true) :
    (Tree.log now (.bound threshold style contexts) level message details).Follows
      (fun key => (((detailsOf details).defined? key).map (·.logged now)).or (bound key)) message ∨
    ∃ v e, (detailsOf details).defined? errorKey = some v ∧ v.errorRecord style = .error e ∧
      Tree.log now (.bound threshold style contexts) level message details = .refused e := by
  have hwrite : (Logger.bound threshold style contexts).write now level message details
      = (Site.details.pieces style now (detailsOf details)).map fun pieces =>
          [line now level contexts pieces (.text message)] := by
    simp only [Logger.write, hadmits, if_true, detailPieces, hmessage]
  rcases Site.pieces_of_legible hdetails style now with
    ⟨pieces, hpieces, hreads⟩ | ⟨v, e, hv, hrecord, hpieces⟩
  · obtain ⟨entry, hentry, hfollows⟩ := follows_line now level message hcontexts hreads
    exact Or.inl ⟨_, entry, by simp only [Tree.log, hwrite, hpieces, Except.map], hentry, hfollows⟩
  · exact Or.inr ⟨v, e, hv, hrecord, by simp only [Tree.log, hwrite, hpieces, Except.map]⟩

/-- A record that is no request says what it holds. -/
theorem detailsOf_record (h : isRequest (.record members) = false) :
    detailsOf (.record members) = Table.ordered members := by
  simp [detailsOf, h, Value.isError, Value.shownMembers]

/-- A request says one thing. -/
theorem detailsOf_request (h : isRequest (.record members) = true) :
    detailsOf (.record members) = [("req", requestRecord (.record members))] := by
  simp [detailsOf, h, Value.isError]

theorem legible_request (v : Value) : Legible .details [("req", v)] where
  nodup := List.nodup_singleton _
  ordinary := fun m hm _ => by
    rw [List.mem_singleton.mp hm]
    exact (by decide : BuiltinName.ofName? "req" = none)
  plain := fun _ _ _ => rfl

end Calls

/-- **An entry shows what its lineage gives.** Of a root that was opened, for a destination or over
a logger, and of all steps on its tree: every logger has a lineage, and what a call shows depends on
that lineage alone, whatever other loggers there are and whatever was done with them. If the root
does not admit the level, nothing is written.

Otherwise, if all contexts of the lineage are legible, a call whose details are a record writes one
line. Its entry has the message of the call, and under every key but its own it has what the details
say there, or else what the last context says that says anything, and nothing if none does. A
request says what it is under one key. Any other record says what it holds, if that is legible; and
what is to be shown in full as an error may be refused. -/
theorem follows_lineage {opened : Int} {threshold : Option String} {context : Value}
    {root : Logger}
    (hroot : openDestination opened threshold context = .ok root
      ∨ openOver opened threshold context = .ok root)
    {steps : List (Int × Step)} {name : String}
    (hname : ((Family.grown root ⟨opened, context⟩ steps).tree.get? name).isSome) :
    ∃ lineage, (Family.grown root ⟨opened, context⟩ steps).lineages.get? name = some lineage ∧
      ∀ (now : Int) (level : Level) (message : String) (details : Value),
        let outcome := ((Family.grown root ⟨opened, context⟩ steps).tree.step now
          (.log name level message details)).1
        (∀ steps' name',
          (Family.grown root ⟨opened, context⟩ steps').lineages.get? name' = some lineage →
            ((Family.grown root ⟨opened, context⟩ steps').tree.step now
              (.log name' level message details)).1 = outcome) ∧
        (root.admits level = false → outcome = .wrote []) ∧
        (root.admits level = true →
          (∀ b ∈ lineage, Legible .context (bindings b.context.shownMembers)) →
          ∀ members : Table Value, details = .record members →
            (isRequest details = false → Legible .details members →
              outcome.Follows (given? lineage now members) message ∨
              ∃ style v e, members.defined? errorKey = some v ∧
                v.errorRecord style = .error e ∧ outcome = .refused e) ∧
            (isRequest details = true →
              outcome.Follows (given? lineage now [("req", requestRecord details)]) message)) := by
  obtain ⟨least, style, hmade⟩ := exists_base_of_open hroot
  have hgrown := Family.isGrownFrom_grown ⟨opened, context⟩ hmade
  obtain ⟨l, hl⟩ := Option.isSome_iff_exists.mp hname
  obtain ⟨lineage, hlineage, hdescend⟩ := (hgrown steps).exists_lineage hl
  refine ⟨lineage, hlineage, fun now level message details => ?_⟩
  have hstep {steps : List (Int × Step)} {name : String}
      (h : (Family.grown root ⟨opened, context⟩ steps).lineages.get? name = some lineage) :
      ((Family.grown root ⟨opened, context⟩ steps).tree.step now
          (.log name level message details)).1
        = Tree.log now l level message details := by
    exact (hgrown steps).step_log h hdescend now level message details
  have hadmits : l.admits = root.admits :=
    (Logger.admits_of_descend hdescend).trans (Logger.admits_of_child hmade).symm
  simp only [hstep hlineage]
  refine ⟨fun steps' name' hlineage' => hstep hlineage', fun hnot => ?_, ?_⟩
  · exact log_of_not_admits (hadmits ▸ hnot) details
  · rintro hlevel hlegible members rfl
    obtain ⟨contexts, rfl, hcontexts⟩ := Logger.reads_of_descend Line.reads_nil hlegible hdescend
    rw [← hadmits] at hlevel
    have hbound := hcontexts.congr fun key _ => Option.or_none
    refine ⟨fun hrequest hmembers => ?_, fun hrequest => ?_⟩
    · have hdetails := detailsOf_record hrequest
      have hordered : Legible .details (detailsOf (.record members)) :=
        hdetails ▸ hmembers.of_perm (Table.ordered_perm members).symm
      have hlog := follows_log now level message style hbound hordered rfl hlevel
      simp only [hdetails, Table.defined?_ordered hmembers.nodup] at hlog
      rcases hlog with hfollows | ⟨v, e, hrefused⟩
      · exact Or.inl hfollows
      · exact Or.inr ⟨style, v, e, hrefused⟩
    · have hdetails := detailsOf_request hrequest
      have hlegible : Legible .details (detailsOf (.record members)) :=
        hdetails ▸ legible_request _
      have hlog := follows_log now level message style hbound hlegible rfl hlevel
      simp only [hdetails] at hlog
      refine hlog.resolve_right ?_
      rintro ⟨v, e, hv, -⟩
      cases hv

/-- A child narrows the module and leaves the run alone, which it has as `undefined`; its parent is
used before it is. -/
theorem follows_lineage_narrower :
    let context : Table Value := [("module", .text "root"), ("run", .bool true)]
    let narrower : Table Value := [("module", .text "child"), ("run", .undefined)]
    let members : Table Value := [("step", .text "merge"), ("run", .undefined)]
    let steps : List (Int × Step) :=
      [(1, .child "root" "c" (.record narrower)), (2, .log "root" .warn "made" .undefined)]
    ∃ root, openDestination 0 none (.record context) = .ok root ∧
      let family := Family.grown root ⟨0, .record context⟩ steps
      ∃ line entry, (family.tree.step 3 (.log "c" .info "done" (.record members))).1
          = .wrote [line] ∧
        line.entry? = some entry ∧ entry.get? "module" = some (.text "child") ∧
        entry.get? "run" = some (.bool true) ∧ entry.get? "step" = some (.text "merge") ∧
        entry.get? "other" = none ∧ entry.get? "msg" = some (.text "done") := by
  intro context narrower members steps
  have hcontext : Legible .context (bindings (Value.record context).shownMembers) :=
    Legible.bindings (by decide)
  have hnarrower : Legible .context (bindings (Value.record narrower).shownMembers) :=
    Legible.bindings (by decide)
  obtain ⟨root, hroot⟩ := Logger.exists_child (.record context) rfl (by decide +kernel) hcontext
    (by decide +kernel) (.bound .default .nested []) 0
  obtain ⟨made, hmade⟩ := Logger.exists_child (.record narrower) rfl (by decide +kernel) hnarrower
    (by decide +kernel) root 1
  have hopen : openDestination 0 none (.record context) = .ok root := hroot
  have hgrown : Family.grown root ⟨0, .record context⟩ steps
      = ⟨[("root", root), ("c", made)], [("root", [⟨0, .record context⟩]),
          ("c", [⟨0, .record context⟩, ⟨1, .record narrower⟩])]⟩ := by
    simp only [steps, Family.grown, Family.after, List.foldl_cons, List.foldl_nil]
    rw [Family.step_child rfl rfl hmade]
    rfl
  have hname : ((Family.grown root ⟨0, .record context⟩ steps).tree.get? "c").isSome := by
    rw [hgrown]
    rfl
  obtain ⟨lineage, hlineage, hcalls⟩ := follows_lineage (Or.inl hopen) hname
  rw [hgrown] at hlineage
  obtain rfl := Option.some.inj hlineage
  obtain ⟨-, -, hwrites⟩ := hcalls 3 .info "done" (.record members)
  have hadmits : root.admits .info = true := by
    rw [Logger.admits_of_child hroot]
    rfl
  rcases (hwrites hadmits (by simpa using ⟨hcontext, hnarrower⟩) members rfl).1 rfl (by decide)
    with ⟨line, entry, hwrote, hentry, hfollows⟩ | ⟨style, v, e, hdefined, -⟩
  · have hshows (key : String) (hkey : key ∉ ownKeys) := hfollows.members key hkey
    simp only [given?, inherited?_pair,
      Binding.gives?_record (by decide : narrower.keys.Nodup),
      Binding.gives?_record (by decide : context.keys.Nodup)] at hshows
    exact ⟨root, hopen, line, entry, hwrote, hentry, hshows "module" (by decide),
      hshows "run" (by decide), hshows "step" (by decide), hshows "other" (by decide),
      hfollows.message⟩
  · cases hdefined

/-! ### Keys that are not quoted -/

/-- The JSON text of what the entry of a call shows under a key, if the call wrote one line. -/
def Outcome.shown? (outcome : Outcome) (key : String) : Option String :=
  match outcome with
  | .wrote [line] => do
    let entry ← Line.entry? line
    (Table.get? entry key).map Value.json
  | _ => none

theorem Outcome.Follows.shown? {outcome : Outcome} {given : String → Option Value}
    {message : String} (h : outcome.Follows given message) (key : String) (hkey : key ∉ ownKeys) :
    outcome.shown? key = (given key).map Value.json := by
  obtain ⟨line, entry, rfl, hentry, hfollows⟩ := h
  simp only [Outcome.shown?, hentry, Option.bind_eq_bind, Option.bind_some,
    hfollows.members key hkey]

/-- **A key of a context is not quoted.** With a quotation mark in it, it ends before it ends, and
the rest of it is read as members of their own: here a child says something of the module, although
no context of its own has that key, and hides what its parent says. -/
theorem not_follows_of_quotedKey :
    let context : Table Value := [("module", .text "root")]
    let narrower : Table Value := [("module\":\"injected\",\"y", .number (.ofInt 0))]
    ∃ root made, openDestination 0 none (.record context) = .ok root ∧
      root.child 0 (.record narrower) = .ok made ∧
      let family := Family.grown root ⟨0, .record context⟩
        [(0, .child "root" "c" (.record narrower))]
      ∃ lineage, family.lineages.get? "c" = some lineage ∧
        ¬(family.tree.step 0 (.log "c" .info "m" (.record []))).1.Follows (given? lineage 0 [])
          "m" := by
  intro context narrower
  -- what the call shows is read from the text of its line
  have hshown : ((openDestination 0 none (.record context)).bind fun root =>
      (root.child 0 (.record narrower)).map fun made =>
        (Tree.log 0 made .info "m" (.record [])).shown? "module").toOption
      = some (some "\"injected\"") := by
    decide +kernel
  cases hroot : openDestination 0 none (.record context) with
  | error e => simp [hroot, Except.bind, Except.toOption] at hshown
  | ok root =>
    cases hmade : root.child 0 (.record narrower) with
    | error e => simp [hroot, hmade, Except.bind, Except.map, Except.toOption] at hshown
    | ok made =>
      simp only [hroot, hmade, Except.bind, Except.map, Except.toOption, Option.some_inj] at hshown
      have hgrown : Family.grown root ⟨0, .record context⟩
            [(0, .child "root" "c" (.record narrower))]
          = ⟨[("root", root), ("c", made)], [("root", [⟨0, .record context⟩]),
              ("c", [⟨0, .record context⟩, ⟨0, .record narrower⟩])]⟩ := by
        simp only [Family.grown, Family.after, List.foldl_cons, List.foldl_nil]
        rw [Family.step_child rfl rfl hmade]
        rfl
      refine ⟨root, made, rfl, hmade, [⟨0, .record context⟩, ⟨0, .record narrower⟩], ?_, ?_⟩
      · rw [hgrown]
        rfl
      · rw [hgrown]
        intro hfollows
        have hsame := hfollows.shown? "module" (by decide)
        rw [given?, inherited?_pair, Binding.gives?_record (by decide),
          Binding.gives?_record (by decide)] at hsame
        exact absurd (hshown.symm.trans hsame) (by decide +kernel)

/-- **A built-in name has a serializer of its own**, which does not ask what stands under it. -/
theorem not_follows_of_builtinName :
    let members : Table Value := [(BuiltinName.isFallbackOf.name, .bool true)]
    ∃ root, openDestination 0 none (.record []) = .ok root ∧
      ¬(Tree.log 0 root .info "m" (.record members)).Follows (given? [⟨0, .record []⟩] 0 members)
        "m" := by
  intro members
  have hshown : ((openDestination 0 none (.record [])).map fun root =>
      (Tree.log 0 root .info "m" (.record members)).shown? BuiltinName.isFallbackOf.name).toOption
      = some (some "false") := by
    decide +kernel
  cases hroot : openDestination 0 none (.record []) with
  | error e => simp [hroot, Except.map, Except.toOption] at hshown
  | ok root =>
    simp only [hroot, Except.map, Except.toOption, Option.some_inj] at hshown
    refine ⟨root, rfl, fun hfollows => ?_⟩
    have hsame := hfollows.shown? BuiltinName.isFallbackOf.name (by decide)
    exact absurd (hshown.symm.trans hsame) (by decide +kernel)

end Log

end ConfigSource
