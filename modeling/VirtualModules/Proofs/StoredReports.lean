import Mathlib.Algebra.Group.Nat.Defs
import Mathlib.Data.List.Basic
import VirtualModules.Proofs.ByteReaders
import VirtualModules.Proofs.Tables

/-!
# Reading stored reports back

What a report is made of is written and read by matching pairs (`Codec`): lengths and texts, lists
and tables of them, and so whole reports (`codec_combined`). Lengths are told in eight bytes, and
that is all a report must fit into (`Fits`). A report that fits is read back from its bytes, and
only reports that fit are ever read (`decode_encode_iff`). From bytes that end too early nothing is
read, even if they happen to have the right checksum (`decode_torn`).
-/

namespace VirtualModules

/-! ## Tables and sets from what they list -/

section Lists

variable {κ ν : Type} [LT κ] [LE κ] [DecidableLT κ] [DecidableEq κ] [Std.IsLinearOrder κ]
  [Std.LawfulOrderLT κ]

omit [DecidableLT κ] [Std.IsLinearOrder κ] in
/-- No key repeats among ascending entries, so it is of no matter from which end they are looked
up. -/
theorem Table.lookup_reverse {l : List (κ × ν)} (ascending : l.Pairwise fun a b => a.1 < b.1)
    (k : κ) : l.reverse.lookup k = l.lookup k := by
  induction l with
  | nil => rfl
  | cons head rest ih =>
    obtain ⟨k', v⟩ := head
    obtain ⟨below, rest_ascending⟩ := List.pairwise_cons.mp ascending
    rw [List.reverse_cons, List.lookup_append, ih rest_ascending]
    by_cases here : k = k'
    · subst here
      have fresh : rest.lookup k = none := by
        rw [List.lookup_eq_none_iff]
        exact fun e mem => bne_iff_ne.mpr (Std.ne_of_lt (below e mem))
      simp [fresh]
    · simp [List.lookup_cons, beq_eq_false_iff_ne.mpr here]

theorem Table.ofList_entries (t : Table κ ν) : Table.ofList t.entries = t := by
  apply Table.ext_get?
  intro k
  rw [Table.get?_ofList, Table.lookup_reverse t.ascending, Table.get?]

/-- A table of a list of bindings has no others. -/
theorem Table.entries_ofList (l : List (κ × ν)) :
    (Table.ofList l).entries.length ≤ l.length ∧ ∀ e ∈ (Table.ofList l).entries, e ∈ l := by
  -- entering the bindings in any table, not only in the empty one
  have general : ∀ (t : Table κ ν),
      (l.foldl (fun t e => t.insert e.1 e.2) t).entries.length ≤ t.entries.length + l.length ∧
        ∀ e ∈ (l.foldl (fun t e => t.insert e.1 e.2) t).entries, e ∈ t.entries ∨ e ∈ l := by
    induction l with
    | nil => simp
    | cons first rest ih =>
      intro t
      obtain ⟨count, members⟩ := ih (t.insert first.1 first.2)
      have grown := Table.length_insertEntry_le first.1 first.2 t.entries
      refine ⟨?_, fun e mem => ?_⟩
      · rw [List.foldl_cons, List.length_cons]
        exact count.trans (by change (Table.insertEntry _ _ _).length + _ ≤ _; omega)
      · rcases members e mem with old | new
        · rcases Table.mem_insertEntry old with rfl | old
          · exact .inr List.mem_cons_self
          · exact .inl old
        · exact .inr (List.mem_cons_of_mem _ new)
  obtain ⟨count, members⟩ := general ∅
  refine ⟨?_, fun e mem => (members e mem).resolve_left List.not_mem_nil⟩
  rwa [show (∅ : Table κ ν).entries.length = 0 from rfl, Nat.zero_add] at count

end Lists

theorem SortedSet.ofList_toList (s : SortedSet ImportPath) : SortedSet.ofList s.toList = s :=
  SortedSet.ext_mem fun _ => SortedSet.mem_ofList

theorem SortedSet.length_ofList_le (l : List ImportPath) :
    (SortedSet.ofList l).toList.length ≤ l.length := by
  have general : ∀ s : SortedSet ImportPath,
      (s.insertMany l).toList.length ≤ s.toList.length + l.length := by
    induction l with
    | nil => simp [SortedSet.insertMany]
    | cons first rest ih =>
      intro s
      have count := ih (s.insert first)
      have grown := SortedSet.length_insertAscending_le first s.toList
      change ((s.insert first).insertMany rest).toList.length ≤ _
      rw [List.length_cons]
      exact count.trans (by change (SortedSet.insertAscending _ _).length + _ ≤ _; omega)
  have count := general ∅
  rwa [show (∅ : SortedSet ImportPath).toList.length = 0 from rfl, Nat.zero_add] at count

namespace Stored

/-! ## What fits -/

/-- The bytes can be counted in eight bytes. -/
def Countable (b : Bytes) : Prop := b.length < 2 ^ 64

/-- The length of a text is told in eight bytes. -/
def TextFits (s : String) : Prop := Countable (Bytes.ofText s)

def PathFits (p : ImportPath) : Prop := TextFits p.text

/-- The number of items is told in eight bytes, and each of them fits. -/
def ListFits {α : Type} (ItemFits : α → Prop) (l : List α) : Prop :=
  l.length < 2 ^ 64 ∧ ∀ a ∈ l, ItemFits a

def SetFits (s : SortedSet ImportPath) : Prop := ListFits PathFits s.toList

def TableFits {ν : Type} (ValueFits : ν → Prop) (t : Table ImportPath ν) : Prop :=
  ListFits (fun e => PathFits e.1 ∧ ValueFits e.2) t.entries

structure ReportFits (r : Report) : Prop where
  concreteAliases : TableFits PathFits r.concreteAliases
  querysetAliases : TableFits PathFits r.querysetAliases
  virtualModules : TableFits PathFits r.virtualModules
  relatedModules : TableFits SetFits r.relatedModules

/-- Every length in a combined report is told in eight bytes, as every length in memory is. -/
structure Fits (c : Combined) : Prop where
  version : TextFits c.version
  report : ReportFits c.report

theorem Countable.left {b c : Bytes} (h : Countable (b ++ c)) : Countable b := by
  unfold Countable at h ⊢
  rw [List.length_append] at h
  omega

theorem Countable.right {b c : Bytes} (h : Countable (b ++ c)) : Countable c := by
  unfold Countable at h ⊢
  rw [List.length_append] at h
  omega

/-! ## Pairs of a writer and a reader -/

/-- A reader and a writer of one kind of values. What fits is read back from its bytes, and only
such values are ever read. Values fit if their bytes can be counted, and all have at least one. -/
structure Codec {α : Type} (reader : ByteReader α) (write : α → Bytes) (Fits : α → Prop) :
    Prop where
  reads : ∀ a, Fits a → Reads reader (write a) a
  steady : Steady reader
  yields : Yields reader Fits
  counted : ∀ a, Countable (write a) → Fits a
  visible : ∀ a, write a ≠ []

section Codecs

variable {α β : Type} {reader : ByteReader α} {write : α → Bytes} {ItemFits : α → Prop}

/-- Values that are another form of those of a codec. -/
theorem Codec.map (codec : Codec reader write ItemFits) {g : α → β} {h : β → α}
    (inverse : ∀ b, g (h b) = b) (taken : ∀ a, ItemFits a → ItemFits (h (g a))) :
    Codec (do return g (← reader)) (fun b => write (h b)) (fun b => ItemFits (h b)) where
  reads b fits := (codec.reads (h b) fits).last (by rw [inverse])
  steady := codec.steady.map g
  yields := codec.yields.bind fun a fits => yields_pure (taken a fits)
  counted b countable := codec.counted (h b) countable
  visible b := codec.visible (h b)

theorem Codec.pair (codec : Codec reader write ItemFits) {other : ByteReader β}
    {writeOther : β → Bytes} {OtherFits : β → Prop} (second : Codec other writeOther OtherFits) :
    Codec (do return (← reader, ← other)) (fun e => write e.1 ++ writeOther e.2)
      (fun e => ItemFits e.1 ∧ OtherFits e.2) where
  reads e fits := (codec.reads e.1 fits.1).bind ((second.reads e.2 fits.2).last rfl)
  steady := codec.steady.bind fun a => second.steady.map (a, ·)
  yields := codec.yields.bind fun _ here => second.yields.bind fun _ there =>
    yields_pure ⟨here, there⟩
  counted e countable := ⟨codec.counted e.1 countable.left, second.counted e.2 countable.right⟩
  visible e := List.append_ne_nil_of_left_ne_nil (codec.visible e.1) _

/-! ## Lengths and texts -/

/-- A length is read back if the reader takes that many bytes. -/
theorem reads_lengthWithin {width n : Nat} (small : n < 251 ∨ (width = 8 ∧ n < 2 ^ 64)) :
    Reads (readLengthWithin width) (encodeLength n) n := by
  have tag (x : UInt8) : Reads readByte [x] x := fun _ => rfl
  unfold readLengthWithin encodeLength
  split
  · next one =>
    have value : (UInt8.ofNat n).toNat = n := by
      rw [UInt8.toNat_ofNat']
      omega
    apply (tag _).last
    rw [if_pos (by rw [UInt8.lt_iff_toNat_lt, value]; exact one), value]
  · next large =>
    obtain ⟨rfl, bound⟩ := small.resolve_left large
    split
    · next two => exact (tag 251).bind (reads_number two)
    · split
      · next four => exact (tag 252).bind (reads_number four)
      · exact (tag 253).bind (reads_number (Nat.lt_of_lt_of_eq bound (by decide)))

theorem reads_length {n : Nat} (small : n < 2 ^ 64) : Reads readLength (encodeLength n) n :=
  reads_lengthWithin (.inr ⟨rfl, small⟩)

theorem encodeLength_ne_nil (n : Nat) : encodeLength n ≠ [] := by
  unfold encodeLength
  split
  · exact List.cons_ne_nil _ _
  · split
    · exact List.cons_ne_nil _ _
    · split <;> exact List.cons_ne_nil _ _

theorem steady_lengthWithin (width : Nat) : Steady (readLengthWithin width) :=
  steady_readByte.bind fun _ => steady_ite (steady_pure _) <|
    steady_ite (steady_number 2) <| steady_ite (steady_number 4) <|
      steady_ite (steady_number 8) steady_failure

theorem yields_length : Yields readLength fun n => n < 2 ^ 64 := by
  have byte (b : UInt8) : b.toNat < 2 ^ 64 := Nat.lt_trans b.toNat_lt (by decide)
  have number {width : Nat} (small : Nat.pow 256 width ≤ 2 ^ 64) :
      Yields (readNumber width) fun n => n < 2 ^ 64 :=
    (yields_number width).mono fun n bound => Nat.lt_of_lt_of_le bound small
  have tag : Yields readByte fun _ => True := fun _ _ _ _ => trivial
  exact tag.bind fun b _ => yields_ite (yields_pure (byte b)) <|
    yields_ite (number (by decide)) <| yields_ite (number (by decide)) <|
      yields_ite (number (by decide)) yields_failure

theorem codec_text : Codec readText encodeText TextFits where
  reads s fits := (reads_length fits).bind ((reads_take _).last (by rw [Bytes.toText?_ofText]))
  steady := (steady_lengthWithin 8).bind fun n => (steady_take n).bind fun b => by
    cases Bytes.toText? b with
    | some s => exact steady_pure s
    | none => exact steady_failure
  yields := yields_length.bind fun n small => (yields_take n).bind fun b length => by
    cases text : Bytes.toText? b with
    | some s =>
      refine yields_pure ?_
      rw [TextFits, Bytes.ofText_of_toText? text, Countable, length]
      exact small
    | none => exact yields_failure
  counted _ countable := countable.right
  visible _ := List.append_ne_nil_of_left_ne_nil (encodeLength_ne_nil _) _

theorem codec_path : Codec readPath encodePath PathFits where
  reads p fits := (codec_text.reads p.text fits).last (by rw [ImportPath.ofString_text])
  steady := codec_text.steady.bind fun s => by
    cases ImportPath.ofString s with
    | ok p => exact steady_pure p
    | error e => exact steady_failure
  yields := codec_text.yields.bind fun s fits => by
    cases valid : ImportPath.ofString s with
    | ok p =>
      refine yields_pure ?_
      rwa [PathFits, ImportPath.ofString_eq_ok_iff.mp valid]
    | error e => exact yields_failure
  counted p countable := codec_text.counted p.text countable
  visible p := codec_text.visible p.text

/-! ## Lists and tables -/

theorem length_le_length_flatMap {l : List α} (visible : ∀ a, write a ≠ []) :
    l.length ≤ (l.flatMap write).length := by
  induction l with
  | nil => simp
  | cons a rest ih =>
    have positive := List.length_pos_iff.mpr (visible a)
    simp only [List.flatMap_cons, List.length_append, List.length_cons]
    omega

theorem countable_item {l : List α} (countable : Countable (l.flatMap write)) {a : α} (mem : a ∈ l) :
    Countable (write a) := by
  have part : (write a).Sublist (l.flatMap write) := by
    rw [List.flatMap_def]
    exact List.sublist_flatten_of_mem (List.mem_map_of_mem mem)
  exact Nat.lt_of_le_of_lt part.length_le countable

/-- A list is behind its number, and each of its items adds at least one byte. -/
theorem Codec.list (item : Codec reader write ItemFits) :
    Codec (readList reader) (encodeList write) (ListFits ItemFits) where
  reads _ fits :=
    (reads_length fits.1).bind (reads_times fun a mem => item.reads a (fits.2 a mem))
  steady := (steady_lengthWithin 8).bind fun count => steady_times item.steady count
  yields := yields_length.bind fun count small =>
    (yields_times item.yields count).mono fun _ taken => ⟨taken.1 ▸ small, taken.2⟩
  counted l countable :=
    have items : Countable (l.flatMap write) := countable.right
    ⟨Nat.lt_of_le_of_lt (length_le_length_flatMap item.visible) items,
      fun a mem => item.counted a (countable_item items mem)⟩
  visible _ := List.append_ne_nil_of_left_ne_nil (encodeLength_ne_nil _) _

theorem ListFits.of_subset {l l' : List α} (fits : ListFits ItemFits l)
    (count : l'.length ≤ l.length) (members : ∀ a ∈ l', a ∈ l) : ListFits ItemFits l' :=
  ⟨Nat.lt_of_le_of_lt count fits.1, fun a mem => fits.2 a (members a mem)⟩

theorem Codec.table (value : Codec reader write ItemFits) :
    Codec (readTable reader) (encodeTable write) (TableFits ItemFits) :=
  (codec_path.pair value).list.map Table.ofList_entries fun l fits =>
    fits.of_subset (Table.entries_ofList l).1 (Table.entries_ofList l).2

theorem codec_set : Codec (do return SortedSet.ofList (← readList readPath))
    (fun s => encodeList encodePath s.toList) SetFits :=
  codec_path.list.map SortedSet.ofList_toList fun l fits =>
    fits.of_subset (SortedSet.length_ofList_le l) fun _ => SortedSet.mem_ofList.mp

/-! ## Reports -/

theorem encodeReport_append (r : Report) :
    encodeReport r = encodeTable encodePath r.concreteAliases ++
      (encodeTable encodePath r.querysetAliases ++ (encodeTable encodePath r.virtualModules ++
        encodeTable (fun s => encodeList encodePath s.toList) r.relatedModules)) := by
  simp only [encodeReport, List.append_assoc]

theorem codec_report : Codec readReport encodeReport ReportFits where
  reads r fits := by
    rw [encodeReport_append]
    apply (codec_path.table.reads _ fits.concreteAliases).bind
    apply (codec_path.table.reads _ fits.querysetAliases).bind
    apply (codec_path.table.reads _ fits.virtualModules).bind
    exact (codec_set.table.reads _ fits.relatedModules).last rfl
  steady := codec_path.table.steady.bind fun _ => codec_path.table.steady.bind fun _ =>
    codec_path.table.steady.bind fun _ => codec_set.table.steady.map _
  yields := codec_path.table.yields.bind fun _ concrete =>
    codec_path.table.yields.bind fun _ querysets =>
      codec_path.table.yields.bind fun _ modules =>
        codec_set.table.yields.bind fun _ related =>
          yields_pure ⟨concrete, querysets, modules, related⟩
  counted r countable := by
    rw [encodeReport_append] at countable
    exact ⟨codec_path.table.counted _ countable.left,
      codec_path.table.counted _ countable.right.left,
      codec_path.table.counted _ countable.right.right.left,
      codec_set.table.counted _ countable.right.right.right⟩
  visible r := by
    rw [encodeReport_append]
    exact List.append_ne_nil_of_left_ne_nil (codec_path.table.visible _) _

theorem codec_combined : Codec readCombined encodeCombined Fits where
  reads _ fits :=
    (codec_text.reads _ fits.version).bind ((codec_report.reads _ fits.report).last rfl)
  steady := codec_text.steady.bind fun _ => codec_report.steady.map _
  yields := codec_text.yields.bind fun _ version => codec_report.yields.bind fun _ report =>
    yields_pure ⟨version, report⟩
  counted _ countable := ⟨codec_text.counted _ countable.left, codec_report.counted _ countable.right⟩
  visible _ := List.append_ne_nil_of_left_ne_nil (codec_text.visible _) _

end Codecs

theorem length_programVersion : (encodeText programVersion).length = 6 := by decide +kernel

/-- The header of a payload has a fixed form: what differs is the checksum. -/
theorem reads_header (payload : Bytes) :
    Reads readHeader (encodeHeader (.ofPayload payload)) (.ofPayload payload) := by
  have program : TextFits programVersion := codec_text.counted _ (by
    rw [Countable, length_programVersion]
    decide)
  have checksum : Reads (take 16) (Fingerprint.ofBytes payload).toBytes
      (Fingerprint.ofBytes payload).toBytes := by
    have bytes := reads_take (Fingerprint.ofBytes payload).toBytes
    have sixteen : (Fingerprint.ofBytes payload).toBytes.length = 16 := by
      simp [Fingerprint.toBytes]
    rwa [sixteen] at bytes
  unfold encodeHeader Header.ofPayload
  simp only [List.append_assoc]
  apply (reads_take magic).bind
  apply (reads_lengthWithin (.inl (by decide))).bind
  apply (codec_text.reads _ program).bind
  exact checksum.last rfl

theorem length_header (payload : Bytes) :
    (encodeHeader (.ofPayload payload)).length < Nat.pow 256 4 := by
  have magic_length : magic.length = 4 := rfl
  simp [encodeHeader, Header.ofPayload, length_programVersion, magic_length, Fingerprint.toBytes,
    formatVersion, encodeLength]

/-! ## Enough bytes to count with -/

theorem length_ofText_le (cs : List Char) :
    (Bytes.ofText (String.ofList cs)).length ≤ 4 * cs.length := by
  change (String.ofList cs).utf8ByteSize ≤ 4 * cs.length
  induction cs with
  | nil => simp
  | cons c rest ih =>
    have size := c.utf8Size_le_four
    rw [String.ofList_cons, String.utf8ByteSize_append, String.utf8ByteSize_singleton,
      List.length_cons]
    omega

theorem length_encodeLength_le (n : Nat) : (encodeLength n).length ≤ 9 := by
  unfold encodeLength
  split
  · simp
  · split
    · simp
    · split <;> simp

/-- The version of a report is the text of a fingerprint. -/
theorem length_encodeText_toHex_le (f : Fingerprint) : (encodeText f.toHex).length ≤ 137 := by
  have digits : (f.toBytes.flatMap fun x => hexDigits 2 x.toNat).length = 32 := by
    simp [List.length_flatMap, Fingerprint.toBytes]
  have bytes := length_ofText_le (f.toBytes.flatMap fun x => hexDigits 2 x.toNat)
  have tag := length_encodeLength_le (Bytes.ofText f.toHex).length
  rw [digits] at bytes
  rw [encodeText, List.length_append]
  change (Bytes.ofText f.toHex).length ≤ 4 * 32 at bytes
  omega

/-- The bytes of a pass's report can be counted if those of its tables can. -/
theorem countable_encode {c : Combined} {artifacts : List Artifact}
    (named : c.version = version artifacts) (small : (encodeReport c.report).length < 2 ^ 63) :
    Countable (encode c) := by
  have header : (encodeHeader (.ofPayload (encodeCombined c))).length < 2 ^ 32 :=
    length_header (encodeCombined c)
  have version_length := length_encodeText_toHex_le
    (Fingerprint.ofParts (versionParts (artifacts.map fun a => (a.virtualPath, a.summary))))
  change (encodeText (version artifacts)).length ≤ 137 at version_length
  rw [← named] at version_length
  simp only [Countable, encode, List.length_append, Bytes.length_littleEndian, encodeCombined]
  simp only [encodeCombined] at header
  omega

/-! ## Stored reports -/

/-- The header and what follows it, the way they stand in a file. -/
def readSections : ByteReader Bytes := do take (← readNumber 4)

/-- The header is of this format and version, and has the checksum of the payload. -/
def Header.Heads (header : Header) (payload : Bytes) : Prop :=
  header.magic = Stored.magic ∧ header.formatVersion = Stored.formatVersion ∧
    header.checksum = (Fingerprint.ofBytes payload).toBytes

instance (header : Header) (payload : Bytes) : Decidable (header.Heads payload) :=
  inferInstanceAs (Decidable (_ ∧ _ ∧ _))

/-- The combined report in a payload behind a header. -/
def openSections (header payload : Bytes) : Option Combined := do
  let (header, _) ← readHeader.run header
  if header.Heads payload then (readCombined.run payload).map (·.1) else none

theorem decode_eq (b : Bytes) : decode b = (readSections.run b).bind fun (header, payload) =>
    openSections header payload := by
  rw [readSections, StateT.run_bind, Option.bind_eq_bind, Option.bind_assoc]
  rfl

theorem steady_sections : Steady readSections := (steady_number 4).bind steady_take

/-- The length of a header with the header behind it. -/
def headerSection (payload : Bytes) : Bytes :=
  let header := encodeHeader (.ofPayload payload)
  Bytes.littleEndian 4 header.length ++ header

theorem encode_eq (c : Combined) :
    encode c = headerSection (encodeCombined c) ++ encodeCombined c := rfl

theorem reads_sections (payload : Bytes) :
    Reads readSections (headerSection payload) (encodeHeader (.ofPayload payload)) :=
  (reads_number (length_header payload)).bind (reads_take _)

/-- Behind the header of one payload another one is read only if it has the same checksum. -/
theorem decode_headerSection_append (payload found : Bytes) :
    decode (headerSection payload ++ found) =
      if (Fingerprint.ofBytes payload).toBytes = (Fingerprint.ofBytes found).toBytes then
        (readCombined.run found).map (·.1)
      else none := by
  have fields := reads_header payload []
  rw [List.append_nil] at fields
  rw [decode_eq, reads_sections payload found]
  simp only [openSections, Option.bind_eq_bind, Option.bind_some, fields]
  simp [Header.Heads, Header.ofPayload]

/-- A stored report is read back as it was exactly if it fits: only such a report is ever read. -/
theorem decode_encode_iff {c : Combined} : decode (encode c) = some c ↔ Fits c := by
  rw [encode_eq, decode_headerSection_append, if_pos rfl, Option.map_eq_some_iff]
  constructor
  · rintro ⟨⟨_, rest⟩, taken, rfl⟩
    exact codec_combined.yields _ _ _ taken
  · intro fits
    have report := codec_combined.reads c fits []
    rw [List.append_nil] at report
    exact ⟨_, report, rfl⟩

theorem decode_encode {c : Combined} (countable : Countable (encode c)) :
    decode (encode c) = some c :=
  decode_encode_iff.mpr (codec_combined.counted c countable.right)

/-- Where the bytes of a report end too early, the length of the header is not there, the header is
not, or the payload stops before the report does, whatever its checksum. -/
theorem decode_torn {c : Combined} (fits : Fits c) {torn : Bytes} (part : Torn torn (encode c)) :
    decode torn = none := by
  obtain ⟨begins, proper⟩ := part
  rw [encode_eq] at begins proper
  have header := List.prefix_append (headerSection (encodeCombined c)) (encodeCombined c)
  by_cases whole : headerSection (encodeCombined c) <+: torn
  · -- the checksum may be right by chance, so the payload itself has to be unreadable
    obtain ⟨found, rfl⟩ := whole
    have missing : Torn found (encodeCombined c) :=
      ⟨(List.prefix_append_right_inj _).mp begins, fun same => proper (by rw [same])⟩
    have nothing := codec_combined.steady.run_torn (codec_combined.reads c fits) missing
    rw [decode_headerSection_append, nothing, Option.map_none, ite_self]
  · have inside := (List.prefix_or_prefix_of_prefix begins header).resolve_right whole
    have missing : Torn torn (headerSection (encodeCombined c)) :=
      ⟨inside, fun same => whole (same ▸ List.prefix_refl _)⟩
    rw [decode_eq, steady_sections.run_torn (reads_sections _) missing, Option.bind_none]

end Stored

end VirtualModules
