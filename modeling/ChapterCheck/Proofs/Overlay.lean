/-
# ChapterCheck.Proofs.Overlay -- options as they are written, and as they are read

An object of settings may hold the two known fields, each once, a text for the version and the
digits of a word of 64 bits for the limit (`Admissible`); what it does not hold keeps its default
(`Overlays`). `Options.read_as_written` says that of every input that holds an object, options are
read just where its members are admissible, and then they are what the members say, in whatever
order and with whatever blanks.

Options that are written have such members (`writes_laidOut`), with blanks or without, and overlay
the defaults with them. So they are read back as a case of the same theorem.
-/
import ChapterCheck.CommandLine.Outcome
import ChapterCheck.Proofs.Settings

namespace ChapterCheck.Options

open Json

/-! ## Objects of settings -/

/-- Members are **`Admissible`** as settings -- the names are known and come once, the version is a
text, and the limit is written with the digits of a number that fits 64 bits. -/
structure Admissible (written : List Member) : Prop where
  known : ∀ m ∈ written, m.key = versionField ∨ m.key = depthField
  once : (written.map Member.key).Nodup
  version : ∀ m ∈ written, m.key = versionField → ∃ text, m.value = .string text
  depth : ∀ m ∈ written, m.key = depthField → ∃ n < UInt64.size, m.text = Utf8.bytes (Nat.repr n)

/-- Options **`Overlay`** the defaults with members -- what is written is what they are, and they
are the standard ones in what is not written. -/
structure Overlays (o : Options) (written : List Member) : Prop where
  version : ∀ m ∈ written, m.key = versionField → m.value = .string o.schemaVersion
  depth : ∀ m ∈ written, m.key = depthField → m.text = Utf8.bytes (Nat.repr o.maxDepth.toNat)
  versionByDefault : versionField ∉ written.map Member.key →
    o.schemaVersion = standard.schemaVersion
  depthByDefault : depthField ∉ written.map Member.key → o.maxDepth = standard.maxDepth

/-- Members whose texts are those of natural numbers just where they hold these. -/
def Legible (written : List Member) : Prop :=
  ∀ m ∈ written, ∀ n : Nat,
    m.value = .number (.integer n) ↔ m.text = Utf8.bytes (Nat.repr n) ∧ n < UInt64.size

section Members

variable {o o' : Options} {written written' : List Member}
  {settings : List (String × Setting)}

theorem Overlays.unique (h : Overlays o written) (h' : Overlays o' written) : o = o' := by
  have hversion : o.schemaVersion = o'.schemaVersion := by
    by_cases hmem : versionField ∈ written.map Member.key
    · obtain ⟨m, hm, hkey⟩ := List.mem_map.mp hmem
      exact Value.string.inj ((h.version m hm hkey).symm.trans (h'.version m hm hkey))
    · rw [h.versionByDefault hmem, h'.versionByDefault hmem]
  have hdepth : o.maxDepth = o'.maxDepth := by
    by_cases hmem : depthField ∈ written.map Member.key
    · obtain ⟨m, hm, hkey⟩ := List.mem_map.mp hmem
      have htext := (h.depth m hm hkey).symm.trans (h'.depth m hm hkey)
      exact UInt64.toNat_inj.mp (bytes_repr_injective htext)
    · rw [h.depthByDefault hmem, h'.depthByDefault hmem]
  cases o
  cases o'
  cases hversion
  cases hdepth
  rfl

theorem exists_told_iff :
    (∃ settings, Told written settings) ↔ ∀ m ∈ written, ∃ setting, Gives m setting := by
  constructor
  · rintro ⟨settings, htold⟩ m hm
    obtain ⟨p, -, -, hgives⟩ := exists_of_mem_of_forall₂ htold m hm
    exact ⟨p.2, hgives⟩
  · intro hgives
    induction written with
    | nil => exact ⟨[], .nil⟩
    | cons m written ih =>
      rw [List.forall_mem_cons] at hgives
      obtain ⟨setting, hsetting⟩ := hgives.1
      obtain ⟨settings, hsettings⟩ := ih hgives.2
      exact ⟨(m.key, setting) :: settings, .cons ⟨rfl, hsetting⟩ hsettings⟩

/-- Members are admissible just where each of them gives a setting, and each name comes once. -/
theorem admissible_iff (hnumbers : Legible written) :
    Admissible written
      ↔ (written.map Member.key).Nodup ∧ ∀ m ∈ written, ∃ setting, Gives m setting := by
  constructor
  · intro h
    refine ⟨h.once, fun m hm => ?_⟩
    rcases h.known m hm with hkey | hkey
    · obtain ⟨text, htext⟩ := h.version m hm hkey
      exact ⟨.version text, .version hkey htext⟩
    · obtain ⟨n, hn, htext⟩ := h.depth m hm hkey
      refine ⟨.depth (UInt64.ofNat n), .depth hkey ?_⟩
      rw [UInt64.toNat_ofNat_of_lt' hn]
      exact (hnumbers m hm n).mpr ⟨htext, hn⟩
  · rintro ⟨hnodup, hgives⟩
    refine ⟨fun m hm => ?_, hnodup, fun m hm hkey => ?_, fun m hm hkey => ?_⟩
    · obtain ⟨setting, hsetting⟩ := hgives m hm
      cases hsetting with
      | version hkey _ => exact .inl hkey
      | depth hkey _ => exact .inr hkey
    · obtain ⟨setting, hsetting⟩ := hgives m hm
      cases hsetting with
      | version _ htext => exact ⟨_, htext⟩
      | depth hkey' _ => exact absurd (hkey.symm.trans hkey') versionField_ne_depthField
    · obtain ⟨setting, hsetting⟩ := hgives m hm
      cases hsetting with
      | version hkey' _ => exact absurd (hkey'.symm.trans hkey) versionField_ne_depthField
      | @depth limit _ hvalue =>
        exact ⟨limit.toNat, limit.toNat_lt_size, ((hnumbers m hm _).mp hvalue).1⟩

/-- **`overlays_overlay`** -- settings that members give, put over the defaults, overlay them with
these members. -/
theorem overlays_overlay (hnumbers : Legible written) (honce : (written.map Member.key).Nodup)
    (htold : Told written settings) : Overlays (overlay settings) written where
  version _ hm hkey := versionIn.get_overlay honce htold hm hkey
  depth m hm hkey := ((hnumbers m hm _).mp (depthIn.get_overlay honce htold hm hkey)).1
  versionByDefault habsent := versionIn.get_overlay_of_absent htold habsent
  depthByDefault habsent := depthIn.get_overlay_of_absent htold habsent

/-- Two lists of the same members, but for their texts and their order. -/
theorem exists_same_of_perm (h : (written'.map Member.pair).Perm (written.map Member.pair)) :
    ∀ m' ∈ written', ∃ m ∈ written, m.key = m'.key ∧ m.value = m'.value := by
  intro m' hm'
  obtain ⟨m, hm, heq⟩ := List.mem_map.mp (h.mem_iff.mp (List.mem_map_of_mem hm'))
  obtain ⟨hkey, hvalue⟩ := Prod.mk.inj heq
  exact ⟨m, hm, hkey, hvalue⟩

theorem keys_perm (h : (written'.map Member.pair).Perm (written.map Member.pair)) :
    (written'.map Member.key).Perm (written.map Member.key) := by
  have hkeys := h.map Prod.fst
  rw [List.map_map, List.map_map] at hkeys
  exact hkeys

theorem Admissible.perm (hl : Legible written) (hl' : Legible written')
    (hperm : (written'.map Member.pair).Perm (written.map Member.pair)) (h : Admissible written) :
    Admissible written' := by
  have hsame := exists_same_of_perm hperm
  refine ⟨fun m' hm' => ?_, (keys_perm hperm).nodup_iff.mpr h.once, fun m' hm' hkey' => ?_,
    fun m' hm' hkey' => ?_⟩
  · obtain ⟨m, hm, hkey, -⟩ := hsame m' hm'
    rw [← hkey]
    exact h.known m hm
  · obtain ⟨m, hm, hkey, hvalue⟩ := hsame m' hm'
    rw [← hvalue]
    exact h.version m hm (hkey.trans hkey')
  · obtain ⟨m, hm, hkey, hvalue⟩ := hsame m' hm'
    obtain ⟨n, hn, htext⟩ := h.depth m hm (hkey.trans hkey')
    -- The texts may differ, but both are texts of the same value, and a number has only one.
    have hnumber := (hl m hm n).mpr ⟨htext, hn⟩
    rw [hvalue, hl' m' hm' n] at hnumber
    exact ⟨n, hn, hnumber.1⟩

theorem Overlays.perm (hl : Legible written) (hl' : Legible written')
    (hperm : (written'.map Member.pair).Perm (written.map Member.pair)) (h : Overlays o written) :
    Overlays o written' := by
  have hsame := exists_same_of_perm hperm
  have habsent {name : String} (hname : name ∉ written'.map Member.key) :
      name ∉ written.map Member.key :=
    fun hmem => hname ((keys_perm hperm).mem_iff.mpr hmem)
  refine ⟨fun m' hm' hkey' => ?_, fun m' hm' hkey' => ?_,
    fun hname => h.versionByDefault (habsent hname), fun hname => h.depthByDefault (habsent hname)⟩
  · obtain ⟨m, hm, hkey, hvalue⟩ := hsame m' hm'
    rw [← hvalue]
    exact h.version m hm (hkey.trans hkey')
  · obtain ⟨m, hm, hkey, hvalue⟩ := hsame m' hm'
    have hnumber := (hl m hm _).mpr ⟨h.depth m hm (hkey.trans hkey'), o.maxDepth.toNat_lt_size⟩
    rw [hvalue, hl' m' hm'] at hnumber
    exact hnumber.1

end Members

/-! ## Inputs that hold an object -/

section Inputs

variable {input : List UInt8} {written : List Member} {o : Options}

theorem legible_of_writes (h : Writes input written) : Legible written := by
  obtain ⟨s, rest, -, hlists, -⟩ := h
  obtain ⟨part, hpart⟩ := exists_readWith (maxNesting - 1)
  rw [hpart] at hlists
  exact fun m hm n => hlists.value_iff n m hm

/-- Options are read just where the members give settings, each name once, and they are these
put over the defaults. -/
theorem ofBytes_eq_ok_iff_told (h : Writes input written) :
    ofBytes input = .ok o
      ↔ (written.map Member.key).Nodup ∧ ∃ settings, Told written settings
        ∧ overlay settings = o := by
  obtain ⟨s, rest, hs, hlists, hrest⟩ := h
  obtain ⟨part, hpart⟩ := exists_readWith (maxNesting - 1)
  rw [hpart] at hlists
  have hlead : lead? 0x7B = some .object := rfl
  have hread : read.scan input
      = (readMembers .stream readSetting true [] s).map (Taken.map overlay) := by
    simp only [read, hs, hlead]
  rw [ofBytes, toEnd_eq_ok_iff, hread]
  constructor
  · rintro ⟨rest', hscan, -⟩
    obtain ⟨t, ht, heq⟩ := map_eq_ok.mp hscan
    cases heq
    obtain ⟨honce, -, settings, htold, rfl⟩ := (readMembers_readSetting_iff hlists).mp ht
    exact ⟨honce, settings, htold, rfl⟩
  · rintro ⟨honce, settings, htold, rfl⟩
    have ht : readMembers .stream readSetting true [] s = .ok ⟨settings, rest⟩ :=
      (readMembers_readSetting_iff hlists).mpr
        ⟨honce, fun _ _ => List.not_mem_nil, settings, htold, rfl⟩
    exact ⟨rest, map_eq_ok.mpr ⟨_, ht, rfl⟩, hrest⟩

/-- **`exists_ofBytes_iff`** -- there are options just where the members are admissible. -/
theorem exists_ofBytes_iff (h : Writes input written) :
    (∃ o, ofBytes input = .ok o) ↔ Admissible written := by
  rw [admissible_iff (legible_of_writes h), ← exists_told_iff]
  constructor
  · rintro ⟨o, ho⟩
    obtain ⟨honce, settings, htold, -⟩ := (ofBytes_eq_ok_iff_told h).mp ho
    exact ⟨honce, settings, htold⟩
  · rintro ⟨honce, settings, htold⟩
    exact ⟨_, (ofBytes_eq_ok_iff_told h).mpr ⟨honce, settings, htold, rfl⟩⟩

/-- **`ofBytes_eq_ok_iff`** -- the options that are read are the ones that overlay the defaults with
the members. -/
theorem ofBytes_eq_ok_iff (h : Writes input written) :
    ofBytes input = .ok o ↔ Admissible written ∧ Overlays o written := by
  have hoverlays {o : Options} (ho : ofBytes input = .ok o) : Overlays o written := by
    obtain ⟨honce, settings, htold, rfl⟩ := (ofBytes_eq_ok_iff_told h).mp ho
    exact overlays_overlay (legible_of_writes h) honce htold
  constructor
  · intro ho
    exact ⟨(exists_ofBytes_iff h).mp ⟨o, ho⟩, hoverlays ho⟩
  · rintro ⟨hadmissible, ho⟩
    -- Some options are read, and no others overlay the defaults with these members.
    obtain ⟨o', ho'⟩ := (exists_ofBytes_iff h).mpr hadmissible
    rw [ho.unique (hoverlays ho')]
    exact ho'

end Inputs

/-! ## Options that are written -/

/-- The members that options are written with. -/
def members (o : Options) : List Member :=
  [⟨versionField, .string o.schemaVersion, Utf8.bytes (quote o.schemaVersion)⟩,
    ⟨depthField, .number (.integer o.maxDepth.toNat), Utf8.bytes (Nat.repr o.maxDepth.toNat)⟩]

/-- An object of options, with blanks at the border of each member, behind each colon, and behind
the limit. -/
def laidOut (o : Options) (gap colonGap last : List UInt8) : List UInt8 :=
  0x7B :: (gap ++ (Utf8.bytes (quote versionField) ++ 0x3A :: (colonGap
    ++ (Utf8.bytes (quote o.schemaVersion) ++ 0x2C :: (gap ++ (Utf8.bytes (quote depthField)
      ++ 0x3A :: (colonGap ++ (Utf8.bytes (Nat.repr o.maxDepth.toNat) ++ (last ++ [0x7D])))))))))

theorem ends_of_blanks {last : List UInt8} (h : Blanks last) : Ends (last ++ [0x7D]) := by
  intro b hb
  cases last with
  | nil =>
    cases hb
    exact ⟨by decide, by decide⟩
  | cons c last =>
    cases hb
    have hb : isBlank b = true := h b List.mem_cons_self
    simp only [isBlank, Bool.or_eq_true, beq_iff_eq] at hb
    rcases hb with ((rfl | rfl) | rfl) | rfl <;> exact ⟨by decide, by decide⟩

/-- **`writes_laidOut`** -- whatever the blanks are, options are written. -/
theorem writes_laidOut (o : Options) {gap colonGap last : List UInt8} (hgap : Blanks gap)
    (hcolonGap : Blanks colonGap) (hlast : Blanks last) :
    Writes (laidOut o gap colonGap last) o.members := by
  obtain ⟨part, hpart⟩ := exists_readWith (maxNesting - 1)
  have hend : skipBlanks (last ++ [0x7D]) = [0x7D] := skipBlanks_append hlast _
  refine ⟨_, [], skipBlanks_cons (by decide) _, ?_, rfl⟩
  rw [hpart]
  apply Lists.member (nextMember_first (skipBlanks_key hgap _ _)) hcolonGap (opens_quote _)
  · exact fun s hs => readWith_quote _ s _ hs
  apply Lists.member (nextMember_comma (skipBlanks_cons (by decide) _) (skipBlanks_key hgap _ _))
    hcolonGap (opens_repr _)
  · exact fun s hs => readWith_repr o.maxDepth.toNat_lt_size (ends_of_blanks hlast) hs
  exact .closed (nextMember_closed hend false)

theorem admissible_members (o : Options) : Admissible o.members := by
  refine ⟨?_, ?_, ?_, ?_⟩
  · simp [members]
  · simp [members, versionField_ne_depthField]
  · simp [members, versionField_ne_depthField.symm]
  · simp only [members, List.forall_mem_cons]
    exact ⟨fun h => absurd h versionField_ne_depthField,
      fun _ => ⟨o.maxDepth.toNat, o.maxDepth.toNat_lt_size, rfl⟩, nofun⟩

theorem overlays_members (o : Options) : Overlays o o.members := by
  refine ⟨?_, ?_, ?_, ?_⟩
  · simp [members, versionField_ne_depthField.symm]
  · simp [members, versionField_ne_depthField]
  · simp [members]
  · simp [members]

theorem bytes_compact (o : Options) : Utf8.bytes o.json.compact = o.laidOut [] [] [] := by
  have hnumber : (Value.number (.integer o.maxDepth.toNat)).compact
      = Nat.repr o.maxDepth.toNat := rfl
  have hopening : Utf8.bytes "\x7b" = [0x7B] := by decide
  have hcolon : Utf8.bytes ":" = [0x3A] := by decide
  have hcomma : Utf8.bytes "," = [0x2C] := by decide
  have hclosing : Utf8.bytes "\x7d" = [0x7D] := by decide
  rw [json, Value.compact, compactMembers, compactMembers, compactMembers, intercalate_eq_join,
    hnumber, List.map_singleton, String.join_cons, String.join_nil, String.append_empty, laidOut,
    Value.compact]
  simp only [Utf8.bytes_append, hopening, hcolon, hcomma, hclosing, List.append_assoc,
    List.cons_append, List.nil_append]

theorem bytes_pretty (o : Options) :
    Utf8.bytes o.json.pretty
      = o.laidOut (Utf8.bytes (lineAt 1)) [0x20] (Utf8.bytes (lineAt 0)) := by
  have hnumber : (Value.number (.integer o.maxDepth.toNat)).prettyAt 1
      = Nat.repr o.maxDepth.toNat := rfl
  have htext : (Value.string o.schemaVersion).prettyAt 1 = quote o.schemaVersion := rfl
  have hopening : Utf8.bytes "\x7b" = [0x7B] := by decide
  have hcolon : Utf8.bytes ": " = [0x3A, 0x20] := by decide
  have hclosing : Utf8.bytes "\x7d" = [0x7D] := by decide
  rw [json, Value.pretty, Value.prettyAt, prettyMembers_eq_map, List.map_cons, List.map_singleton,
    bytes_bracketed_cons, bytes_behindFirst_cons, bytes_behindFirst_nil, hnumber, htext, memberText,
    memberText, laidOut]
  simp only [Utf8.bytes_append, hopening, hcolon, hclosing, List.append_assoc, List.cons_append,
    List.nil_append]

/-- Options are read back from every layout. -/
theorem ofBytes_laidOut (o : Options) {gap colonGap last : List UInt8} (hgap : Blanks gap)
    (hcolonGap : Blanks colonGap) (hlast : Blanks last) :
    ofBytes (o.laidOut gap colonGap last) = .ok o :=
  (ofBytes_eq_ok_iff (writes_laidOut o hgap hcolonGap hlast)).mpr
    ⟨admissible_members o, overlays_members o⟩

/-- An object with one member that holds a natural number. -/
def single (key : String) (n : Nat) : List UInt8 :=
  0x7B :: (Utf8.bytes (quote key) ++ 0x3A :: 0x20 :: (Utf8.bytes (Nat.repr n) ++ [0x7D]))

theorem writes_single (key : String) {n : Nat} (hn : n < UInt64.size) :
    Writes (single key n) [⟨key, .number (.integer n), Utf8.bytes (Nat.repr n)⟩] := by
  obtain ⟨part, hpart⟩ := exists_readWith (maxNesting - 1)
  refine ⟨_, [], skipBlanks_cons (by decide) _, ?_, rfl⟩
  have hgap : Blanks [0x20] := List.forall_mem_singleton.mpr (by decide)
  have hnone : Blanks [] := List.forall_mem_nil _
  have hends : Ends [0x7D] := ends_of_blanks hnone
  rw [hpart]
  apply Lists.member (nextMember_first (skipBlanks_key hnone key _)) hgap (opens_repr n)
  · exact fun s hs => readWith_repr hn hends hs
  exact .closed (nextMember_closed (skipBlanks_cons (by decide) _) false)

/-! ## Options from inputs -/

/-- Options that cannot be read from a file are a failure to read its text. -/
theorem loadOptions_of_error {files : Snapshot} {path : RawText} {input : List UInt8}
    {fault : Fault} (hfile : files path = .content input) (h : ofBytes input = .error fault) :
    CommandLine.loadOptions files path
      = .error (.ofFailure (.serialization (unreadable (fault.message .stream input)))) := by
  simp only [CommandLine.loadOptions, hfile, h]
  rfl

/-- **`read_as_written`** -- options that are written are read back, in one line or over many. An
input that holds an object writes its members; there are options in it just where these are
admissible, and they overlay the defaults with them. If not, the text is refused. Members in another
order, and other blanks, make no difference. -/
theorem read_as_written :
    (∀ o : Options, ofBytes (Utf8.bytes o.json.compact) = .ok o
      ∧ ofBytes (Utf8.bytes o.json.pretty) = .ok o)
    ∧ (∀ input members, Value.ofBytes input = .ok (.object members) →
      ∃ written, Writes input written ∧ members = Members.ofList (written.map Member.pair))
    ∧ ∀ input written, Writes input written →
      ((∃ o, ofBytes input = .ok o) ↔ Admissible written)
      ∧ (∀ o, ofBytes input = .ok o → Overlays o written)
      ∧ (¬Admissible written → ∃ fault, ofBytes input = .error fault
        ∧ ∀ (files : Snapshot) (path : RawText), files path = .content input →
          CommandLine.loadOptions files path
            = .error (.ofFailure (.serialization (unreadable (fault.message .stream input)))))
      ∧ ∀ other written', Writes other written' →
        (written'.map Member.pair).Perm (written.map Member.pair) →
        ∀ o, ofBytes input = .ok o → ofBytes other = .ok o := by
  refine ⟨fun o => ⟨?_, ?_⟩, ?_, ?_⟩
  · rw [bytes_compact]
    exact ofBytes_laidOut o nofun nofun nofun
  · rw [bytes_pretty]
    exact ofBytes_laidOut o (blanks_lineAt 1) (List.forall_mem_singleton.mpr (by decide))
      (blanks_lineAt 0)
  · intro input members hobject
    exact Value.ofBytes_eq_ok_object_iff.mp hobject
  · intro input written hwrites
    refine ⟨exists_ofBytes_iff hwrites, ?_, ?_, ?_⟩
    · intro o ho
      exact ((ofBytes_eq_ok_iff hwrites).mp ho).2
    · intro hnot
      rw [← exists_ofBytes_iff hwrites] at hnot
      cases hread : ofBytes input with
      | ok o => exact absurd ⟨o, hread⟩ hnot
      | error fault => exact ⟨fault, rfl, fun _ _ hfile => loadOptions_of_error hfile hread⟩
    · intro other written' hwrites' hperm o ho
      obtain ⟨hadmissible, hoverlays⟩ := (ofBytes_eq_ok_iff hwrites).mp ho
      have hlegible := legible_of_writes hwrites
      have hlegible' := legible_of_writes hwrites'
      exact (ofBytes_eq_ok_iff hwrites').mpr
        ⟨hadmissible.perm hlegible hlegible' hperm, hoverlays.perm hlegible hlegible' hperm⟩

/-- The highest limit, and a version that is written with escapes, are read back with blanks of all
kinds as without any. A document with a field that is not known is refused. -/
theorem read_as_written_highest :
    let o : Options := ⟨"\"\n😀", 18446744073709551615⟩
    let spaced := o.laidOut [0x20, 0x0A] [0x09] [0x0D]
    (Admissible o.members ∧ ofBytes (Utf8.bytes o.json.compact) = .ok o ∧ ofBytes spaced = .ok o)
      ∧ Value.ofBytes (single "depth" 8) = .ok (.object [("depth", .number (.integer 8))])
      ∧ ∃ fault, ofBytes (single "depth" 8) = .error fault := by
  intro o spaced
  have hcompact : Writes (Utf8.bytes o.json.compact) o.members := by
    rw [bytes_compact]
    exact writes_laidOut o nofun nofun nofun
  have hspaced : Writes spaced o.members := by
    refine writes_laidOut o ?_ ?_ ?_ <;> exact List.all_eq_true.mp (by decide)
  have hsingle := writes_single "depth" (show 8 < UInt64.size by decide)
  obtain ⟨hback, -, hinputs⟩ := read_as_written
  refine ⟨?_, ?_, ?_⟩
  · obtain ⟨hread, -⟩ := hback o
    obtain ⟨hadmissible, -, -, hperm⟩ := hinputs _ _ hcompact
    exact ⟨hadmissible.mp ⟨o, hread⟩, hread, hperm spaced o.members hspaced (.refl _) o hread⟩
  · exact Value.ofBytes_eq_ok_object_iff.mpr ⟨_, hsingle, rfl⟩
  · obtain ⟨-, -, hrefused, -⟩ := hinputs _ _ hsingle
    obtain ⟨fault, hfault, -⟩ := hrefused fun h =>
      (h.known _ List.mem_cons_self).elim (by decide) (by decide)
    exact ⟨fault, hfault⟩

end ChapterCheck.Options
