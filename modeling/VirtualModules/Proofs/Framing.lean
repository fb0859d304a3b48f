import Mathlib.Algebra.Group.Nat.Defs
import VirtualModules.Fingerprint

/-!
# Telling parts apart

Parts that are framed by their lengths can be told apart (`frame_inj`), so a fingerprint of parts is
that of a stream of bytes that stands for them and for nothing else. A fingerprint is told by its
hexadecimal digits (`Fingerprint.toHex_inj`).
-/

namespace VirtualModules

/-! ## Blocks of one length -/

/-- What is put together from blocks of one length can only be cut into these again. -/
theorem flatMap_inj_of_length {α β : Type} {f : α → List β} {width : Nat} (pos : 0 < width)
    (length : ∀ a, (f a).length = width) (inj : ∀ a b, f a = f b → a = b) {l l' : List α}
    (h : l.flatMap f = l'.flatMap f) : l = l' := by
  induction l generalizing l' with
  | nil =>
    cases l' with
    | nil => rfl
    | cons b rest' =>
      have count := congrArg List.length h
      simp only [List.flatMap_nil, List.flatMap_cons, List.length_nil, List.length_append,
        length] at count
      omega
  | cons a rest ih =>
    cases l' with
    | nil =>
      have count := congrArg List.length h
      simp only [List.flatMap_nil, List.flatMap_cons, List.length_nil, List.length_append,
        length] at count
      omega
    | cons b rest' =>
      obtain ⟨blocks, others⟩ := List.append_inj h ((length a).trans (length b).symm)
      rw [inj a b blocks, ih others]

/-! ## Framed parts -/

theorem frame_cons (part : Bytes) (rest : List Bytes) :
    frame (part :: rest) = Bytes.littleEndian 8 part.length ++ (part ++ frame rest) := by
  rw [frame, List.flatMap_cons, List.append_assoc]
  rfl

/-- Parts whose lengths are told in eight bytes are framed differently from all others. -/
theorem frame_inj {parts parts' : List Bytes} (short : ∀ part ∈ parts, part.length < 2 ^ 64)
    (short' : ∀ part ∈ parts', part.length < 2 ^ 64) (h : frame parts = frame parts') :
    parts = parts' := by
  induction parts generalizing parts' with
  | nil =>
    cases parts' with
    | nil => rfl
    | cons part' rest' => cases h
  | cons part rest ih =>
    cases parts' with
    | nil => cases h
    | cons part' rest' =>
      obtain ⟨short_part, short_rest⟩ := List.forall_mem_cons.mp short
      obtain ⟨short_part', short_rest'⟩ := List.forall_mem_cons.mp short'
      rw [frame_cons, frame_cons] at h
      obtain ⟨counts, bodies⟩ := List.append_inj h (by simp)
      -- the same count of bytes stands for the same part of what follows
      have lengths : part.length = part'.length := by
        refine Bytes.littleEndian_inj ?_ ?_ counts
        · exact short_part
        · exact short_part'
      obtain ⟨same, others⟩ := List.append_inj bodies lengths
      rw [same, ih short_rest short_rest' others]

/-! ## Fingerprints as texts -/

theorem Bytes.toHex_inj {b c : Bytes} (h : b.toHex = c.toHex) : b = c := by
  have digits := String.ofList_inj.mp h
  refine flatMap_inj_of_length Nat.zero_lt_two (fun x => length_hexDigits 2 x.toNat) ?_ digits
  intro x y same
  refine UInt8.toNat_inj.mp (hexDigits_inj ?_ ?_ same)
  · exact x.toNat_lt
  · exact y.toNat_lt

theorem Bytes.eq_of_littleEndian {x y : UInt64}
    (h : littleEndian 8 x.toNat = littleEndian 8 y.toNat) : x = y := by
  refine UInt64.toNat_inj.mp (littleEndian_inj ?_ ?_ h)
  · exact x.toNat_lt
  · exact y.toNat_lt

theorem Fingerprint.toHex_inj {f g : Fingerprint} (h : f.toHex = g.toHex) : f = g := by
  obtain ⟨low, high⟩ := List.append_inj (Bytes.toHex_inj h) (by simp)
  obtain ⟨⟨low_f, high_f⟩⟩ := f
  obtain ⟨⟨low_g, high_g⟩⟩ := g
  have lows : low_f = low_g := Bytes.eq_of_littleEndian low
  have highs : high_f = high_g := Bytes.eq_of_littleEndian high
  rw [lows, highs]

end VirtualModules
