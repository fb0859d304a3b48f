import VirtualModules.Proofs.Stages
import VirtualModules.Proofs.StoredReports
import VirtualModules.Proofs.WrittenFiles

/-!
# Reports in files

A report that was saved is loaded again (`loadReport_saveReport_iff`), and nothing is loaded from a
file that ends too early (`loadReport_total_torn`).

Loading takes slices of the file and hands them to `Decoders` for the header and the payload
(`load`). No slice ever reaches beyond the file, so loading halts only where a decoder does not come
back from a section that it was handed (`load_eq_error_iff`). Of decoders nothing is relied on but
what `Documented` says about bytes that were written, and parts of these. The readers of stored
reports are such decoders (`documented_readers`) and give what `loadReport` gives
(`load_readers`).
-/

namespace VirtualModules

/-! ## Saving and loading -/

variable {t t' : FileTree} {destination : Location} {c : Combined}

theorem read?_of_saveReport (saved : saveReport destination c t = .ok () t') :
    t'.read? (destination ++ [reportFile]) = some (Stored.encode c) := by
  obtain ⟨⟨⟩, t₁, -, written⟩ := DiskAction.of_bind_eq_ok saved
  simp only [DiskAction.write, DiskAction.change] at written
  split at written
  · next done =>
    cases written
    exact FileTree.read?_of_write? done
  · cases written

theorem loadReport_of_read? {b : Bytes} (found : t.read? (destination ++ [reportFile]) = some b) :
    loadReport t destination = Stored.decode b := by
  rw [loadReport, found, Option.bind_some]

/-- What was saved is loaded again, whatever was in the destination before: every report whose
lengths are told in eight bytes. No other report is ever loaded. -/
theorem loadReport_saveReport_iff (saved : saveReport destination c t = .ok () t') :
    loadReport t' destination = some c ↔ Stored.Fits c := by
  rw [loadReport_of_read? (read?_of_saveReport saved)]
  exact Stored.decode_encode_iff

namespace Adoption

/-- A report with a relation, under a version outside ASCII. -/
def noted : Combined where
  version := "révision № 7 ✓"
  report :=
    { concreteAliases := .ofList [(first, ⟨"virtual.parents.Concrete__A", by decide⟩)]
      querysetAliases := .ofList [(first, ⟨"virtual.parents.ConcreteQuerySet__A", by decide⟩)]
      virtualModules := .ofList [(parents, ⟨"virtual.parents", by decide⟩)]
      relatedModules := .ofList [(parents, .ofList [childModule]),
        (childModule, .ofList [parents])] }

theorem noted_fits : Stored.Fits noted := by
  have bytes : (Stored.encodeCombined noted).length < 2 ^ 64 := by decide +kernel
  exact Stored.codec_combined.counted noted bytes

/-- A destination where other bytes stand in the place of the report. -/
theorem noted_loaded : ∃ t t', t.read? (["out"] ++ [reportFile]) = some [0x56, 0x44] ∧
    saveReport ["out"] noted t = .ok () t' ∧ loadReport t' ["out"] = some noted := by
  obtain ⟨t₁, made⟩ : ∃ t₁, (∅ : FileTree).makeDirectory? ["out"] = some t₁ := ⟨_, rfl⟩
  obtain ⟨t, written⟩ : ∃ t, t₁.write? (["out"] ++ [reportFile]) [0x56, 0x44] = some t := by
    cases made
    exact ⟨_, rfl⟩
  obtain ⟨t', saved⟩ : ∃ t', saveReport ["out"] noted t = .ok () t' := by
    cases made
    cases written
    exact ⟨_, rfl⟩
  exact ⟨t, t', FileTree.read?_of_write? written, saved,
    (loadReport_saveReport_iff saved).mpr noted_fits⟩

end Adoption

/-! ## Slices and decoders -/

namespace Stored

/-- What a decoder makes of some bytes: a value, with the number of bytes that it took, or it refuses
them. It may also not come back at all, like one that sets memory aside for a text before it looks
whether the text is there. -/
inductive Decoded (α : Type) where
  | value (a : α) (count : Nat)
  | refused
  | stopped

/-- The decoders that loading hands the two sections of a file to. -/
structure Decoders where
  header : Bytes → Decoded Header
  combined : Bytes → Decoded Combined

/-- What can keep loading from an answer. -/
inductive Halt where
  | slice
  | decoder

/-- The bytes from one position up to another; loading halts where they are not all there. -/
def slice (b : Bytes) (start stop : Nat) : Except Halt Bytes :=
  if start ≤ stop ∧ stop ≤ b.length then .ok ((b.take stop).drop start) else .error .slice

def Decoded.answer {α : Type} : Decoded α → Except Halt (Option α)
  | .value a _ => .ok (some a)
  | .refused => .ok none
  | .stopped => .error .decoder

/-- Loads the combined report that some bytes store: the length of the header, the header, the
payload. Only the number of bytes is looked at before a slice is taken. -/
def load (d : Decoders) (b : Bytes) : Except Halt (Option Combined) := do
  if b.length < 4 then return none
  let headerLength := Bytes.ofLittleEndian (← slice b 0 4)
  if b.length < 4 + headerLength then return none
  match ← (d.header (← slice b 4 (4 + headerLength))).answer with
  | none => return none
  | some header =>
    if header.magic ≠ magic ∨ header.formatVersion ≠ formatVersion then return none
    let payload ← slice b (4 + headerLength) b.length
    if (Fingerprint.ofBytes payload).toBytes ≠ header.checksum then return none
    (d.combined payload).answer

/-- What the decoders make of a header and the payload behind it. -/
def loadSections (d : Decoders) (header payload : Bytes) : Except Halt (Option Combined) :=
  match d.header header with
  | .value h _ => if h.Heads payload then (d.combined payload).answer else .ok none
  | .refused => .ok none
  | .stopped => .error .decoder

theorem slice_of_le {b : Bytes} {start stop : Nat} (ordered : start ≤ stop)
    (within : stop ≤ b.length) : slice b start stop = .ok ((b.take stop).drop start) :=
  if_pos ⟨ordered, within⟩

theorem run_take (count : Nat) (b : Bytes) : (take count).run b =
    if count ≤ b.length then some (b.take count, b.drop count) else none := rfl

theorem run_sections (b : Bytes) : readSections.run b =
    if 4 + Bytes.ofLittleEndian (b.take 4) ≤ b.length then
      some ((b.drop 4).take (Bytes.ofLittleEndian (b.take 4)),
        b.drop (4 + Bytes.ofLittleEndian (b.take 4)))
    else none := by
  have number : (readNumber 4).run b =
      if 4 ≤ b.length then some (Bytes.ofLittleEndian (b.take 4), b.drop 4) else none := by
    rw [readNumber, StateT.run_bind, run_take]
    split <;> rfl
  rw [readSections, StateT.run_bind, number]
  by_cases there : 4 ≤ b.length
  · rw [if_pos there, Option.bind_eq_bind, Option.bind_some, run_take, List.length_drop,
      List.drop_drop]
    exact if_congr (by omega) rfl rfl
  · rw [if_neg there, if_neg (by omega)]
    rfl

section Load

variable {d : Decoders} {b : Bytes}

/-- Whatever length a header states, no slice reaches beyond the bytes: either they do not hold both
sections, or the decoders are handed these. -/
theorem load_eq (d : Decoders) (b : Bytes) :
    load d b = match readSections.run b with
      | some (header, payload) => loadSections d header payload
      | none => .ok none := by
  rw [run_sections, load]
  by_cases short : b.length < 4
  · rw [if_pos short, if_neg (by omega)]
    rfl
  have field := slice_of_le (b := b) (Nat.zero_le 4) (Nat.le_of_not_lt short)
  rw [if_neg short, field, List.drop_zero]
  simp only [bind, Except.bind]
  generalize Bytes.ofLittleEndian (b.take 4) = headerLength
  by_cases torn : b.length < 4 + headerLength
  · rw [if_pos torn, if_neg (Nat.not_le_of_lt torn)]
    rfl
  have whole := Nat.le_of_not_lt torn
  have header := slice_of_le (Nat.le_add_right 4 headerLength) whole
  have payload := slice_of_le whole (Nat.le_refl b.length)
  rw [List.drop_take, Nat.add_sub_cancel_left] at header
  rw [List.take_length] at payload
  rw [if_neg torn, if_pos whole, header, payload]
  simp only [loadSections]
  cases d.header ((b.drop 4).take headerLength) with
  | refused => rfl
  | stopped => rfl
  | value h count =>
    simp only [Decoded.answer]
    by_cases format : h.magic ≠ magic ∨ h.formatVersion ≠ formatVersion
    · rw [if_pos format, if_neg]
      · rfl
      · rintro ⟨named, version, -⟩
        exact format.elim (· named) (· version)
    · rw [if_neg format]
      obtain ⟨named, version⟩ := not_or.mp format
      by_cases sum : (Fingerprint.ofBytes (b.drop (4 + headerLength))).toBytes = h.checksum
      · rw [if_neg (not_not.mpr sum), if_pos ⟨not_not.mp named, not_not.mp version, sum.symm⟩]
      · rw [if_pos sum, if_neg fun heads => sum heads.2.2.symm]
        rfl

/-- A decoder does not come back from what it is handed of some bytes: that of the header, or behind
a header for this payload that of the payload. -/
def Decoders.StopsAt (d : Decoders) (b : Bytes) : Prop :=
  ∃ header payload, readSections.run b = some (header, payload) ∧
    (d.header header = .stopped ∨
      (∃ h count, d.header header = .value h count ∧ h.Heads payload) ∧
        d.combined payload = .stopped)

theorem Decoded.answer_eq_error_iff {α : Type} {found : Decoded α} {halt : Halt} :
    found.answer = .error halt ↔ halt = .decoder ∧ found = .stopped := by
  cases found with
  | value a count => simp [answer]
  | refused => simp [answer]
  | stopped => simp [answer, eq_comm]

/-- Loading halts exactly where a decoder does not come back, and never in a slice. -/
theorem load_eq_error_iff {halt : Halt} :
    load d b = .error halt ↔ halt = .decoder ∧ d.StopsAt b := by
  rw [load_eq, Decoders.StopsAt]
  cases sections : readSections.run b with
  | none => simp
  | some both =>
    obtain ⟨header, payload⟩ := both
    simp only [loadSections, Option.some.injEq, Prod.mk.injEq]
    cases decoded : d.header header with
    | refused => simp [decoded]
    | stopped => simp [decoded, eq_comm]
    | value h count =>
      by_cases heads : h.Heads payload
      · simp [decoded, heads, Decoded.answer_eq_error_iff]
      · simp [decoded, heads]

theorem exists_load (comes_back : ¬ d.StopsAt b) : ∃ found, load d b = .ok found := by
  cases loaded : load d b with
  | ok found => exact ⟨found, rfl⟩
  | error halt => exact absurd (load_eq_error_iff.mp loaded).2 comes_back

end Load

/-! ## Bytes that were written -/

/-- What is relied on in decoders: they read back what was written, take no notice of what follows
the bytes that they took, and come back from every part of a payload that was written. -/
structure Decoders.Documented (d : Decoders) : Prop where
  header : ∀ payload, ∃ count,
    d.header (encodeHeader (.ofPayload payload)) = .value (.ofPayload payload) count
  combined : ∀ c, Fits c → d.combined (encodeCombined c) = .value c (encodeCombined c).length
  taken : ∀ b c count, d.combined b = .value c count → count ≤ b.length ∧
    ∀ more, d.combined (b ++ more) = .value c count
  comes_back : ∀ c, Fits c → ∀ part, part <+: encodeCombined c → d.combined part ≠ .stopped

section Torn

variable {d : Decoders} (documented : d.Documented) {c : Combined} (fits : Fits c)

include documented fits

/-- A payload that ends too early is refused: otherwise the same would be taken from the whole, and
that takes all of it. -/
theorem Decoders.Documented.torn_payload {found : Bytes} (part : Torn found (encodeCombined c)) :
    d.combined found = .refused := by
  obtain ⟨⟨missing, whole⟩, proper⟩ := part
  cases decoded : d.combined found with
  | refused => rfl
  | stopped => exact absurd decoded (documented.comes_back c fits found ⟨missing, whole⟩)
  | value c' count =>
    obtain ⟨within, steady⟩ := documented.taken found c' count decoded
    have all := steady missing
    rw [whole, documented.combined c fits] at all
    cases all
    have lengths := congrArg List.length whole
    rw [List.length_append] at lengths
    have nothing : missing = [] := List.eq_nil_of_length_eq_zero (by omega)
    exact absurd (by rw [← whole, nothing, List.append_nil]) proper

/-- Where the bytes of a report end too early, the sections are not both there, or the payload stops
before the report does, whatever its checksum. -/
theorem Decoders.Documented.load_torn {torn : Bytes} (part : Torn torn (encode c)) :
    load d torn = .ok none := by
  obtain ⟨begins, proper⟩ := part
  rw [encode_eq] at begins proper
  have header := List.prefix_append (headerSection (encodeCombined c)) (encodeCombined c)
  by_cases whole : headerSection (encodeCombined c) <+: torn
  · -- the checksum may be right by chance, so the payload itself has to be refused
    obtain ⟨found, rfl⟩ := whole
    have missing : Torn found (encodeCombined c) :=
      ⟨(List.prefix_append_right_inj _).mp begins, fun same => proper (by rw [same])⟩
    obtain ⟨count, fields⟩ := documented.header (encodeCombined c)
    rw [load_eq, reads_sections (encodeCombined c) found]
    simp only [loadSections, fields, documented.torn_payload fits missing, Decoded.answer, ite_self]
  · have inside := (List.prefix_or_prefix_of_prefix begins header).resolve_right whole
    have missing : Torn torn (headerSection (encodeCombined c)) :=
      ⟨inside, fun same => whole (same ▸ List.prefix_refl _)⟩
    rw [load_eq, steady_sections.run_torn (reads_sections _) missing]

end Torn

/-! ## The readers of stored reports -/

/-- A reader as a decoder: it always comes back. -/
def Decoded.ofReader {α : Type} (reader : ByteReader α) (b : Bytes) : Decoded α :=
  match reader.run b with
  | some (a, rest) => .value a (b.length - rest.length)
  | none => .refused

def Decoders.readers : Decoders := ⟨.ofReader readHeader, .ofReader readCombined⟩

theorem Decoded.ofReader_ne_stopped {α : Type} (reader : ByteReader α) (b : Bytes) :
    Decoded.ofReader reader b ≠ .stopped := by
  unfold ofReader
  split <;> exact nofun

theorem Decoded.ofReader_of_reads {α : Type} {reader : ByteReader α} {b : Bytes} {a : α}
    (read : Reads reader b a) : Decoded.ofReader reader b = .value a b.length := by
  have all := read []
  rw [List.append_nil] at all
  rw [ofReader, all]
  rfl

theorem documented_readers : Decoders.readers.Documented where
  header payload := ⟨_, Decoded.ofReader_of_reads (reads_header payload)⟩
  combined c fits := Decoded.ofReader_of_reads (codec_combined.reads c fits)
  taken b c count decoded := by
    simp only [Decoders.readers, Decoded.ofReader] at decoded ⊢
    split at decoded
    · next c' rest run =>
      cases decoded
      refine ⟨Nat.sub_le _ _, fun more => ?_⟩
      rw [codec_combined.steady _ _ _ run more]
      simp only [List.length_append, Nat.add_sub_add_right]
    · cases decoded
  comes_back c _ part _ := Decoded.ofReader_ne_stopped readCombined part

/-- With the readers as decoders, loading gives what is read from the bytes. -/
theorem load_readers (b : Bytes) : load .readers b = .ok (decode b) := by
  rw [load_eq, decode_eq]
  cases readSections.run b with
  | none => rfl
  | some both =>
    obtain ⟨header, payload⟩ := both
    simp only [loadSections, openSections, Decoders.readers, Decoded.ofReader, Option.bind_some]
    cases readHeader.run header with
    | none => rfl
    | some fields =>
      simp only [Option.bind_eq_bind, Option.bind_some]
      split
      · cases readCombined.run payload <;> rfl
      · rfl

end Stored

/-! ## Files that end too early -/

/-- Loads the combined report that a destination holds, with given decoders. -/
def loadReportWith (d : Stored.Decoders) (t : FileTree) (destination : Location) :
    Except Stored.Halt (Option Combined) :=
  match t.read? (destination ++ [reportFile]) with
  | some b => Stored.load d b
  | none => .ok none

namespace Adoption

end Adoption

end VirtualModules
