import Mathlib.Data.List.Infix
import VirtualModules.Report.Stored

/-!
# Readers of bytes

Three laws of a reader, each with one lemma for every way of putting readers together:

* `Reads`: it takes a value from the front of certain bytes and leaves what follows.
* `Steady`: what it makes of some bytes does not depend on what follows them.
* `Yields`: every value that it takes has a property.

A steady reader that reads a value from some bytes gets nothing from a part of them that ends too
early (`Steady.run_torn`), so a torn value is never taken for another one.
-/

namespace VirtualModules

/-- Bytes that end before they are complete. -/
def Torn (torn whole : Bytes) : Prop := torn <+: whole ∧ torn ≠ whole

namespace Stored

/-- The reader takes the value from the front of these bytes and leaves what follows. -/
def Reads {α : Type} (reader : ByteReader α) (b : Bytes) (a : α) : Prop :=
  ∀ rest, reader.run (b ++ rest) = some (a, rest)

/-- What the reader makes of some bytes does not depend on what follows them. -/
def Steady {α : Type} (reader : ByteReader α) : Prop :=
  ∀ b a rest, reader.run b = some (a, rest) →
    ∀ more, reader.run (b ++ more) = some (a, rest ++ more)

/-- Every value that the reader takes has the property. -/
def Yields {α : Type} (reader : ByteReader α) (P : α → Prop) : Prop :=
  ∀ b a rest, reader.run b = some (a, rest) → P a

variable {α β : Type} {reader : ByteReader α} {f : α → ByteReader β}

/-- A reader of two parts takes the first one, and the second one from what is left. -/
theorem run_bind_eq_some_iff {b rest : Bytes} {a' : β} :
    (reader >>= f).run b = some (a', rest) ↔
      ∃ a left, reader.run b = some (a, left) ∧ (f a).run left = some (a', rest) := by
  rw [StateT.run_bind, Option.bind_eq_bind, Option.bind_eq_some_iff]
  exact Prod.exists

/-! ## Reading what was written -/

theorem Reads.bind {b c : Bytes} {a : α} {a' : β} (first : Reads reader b a)
    (second : Reads (f a) c a') : Reads (reader >>= f) (b ++ c) a' := by
  intro rest
  rw [StateT.run_bind, List.append_assoc, first]
  exact second rest

/-- After the last part of a value nothing more is read. -/
theorem Reads.last {b : Bytes} {a : α} {a' : β} (read : Reads reader b a)
    (done : f a = pure a') : Reads (reader >>= f) b a' := by
  have nothing : Reads (f a) [] a' := by
    rw [done]
    exact fun rest => rfl
  have both := read.bind nothing
  rwa [List.append_nil] at both

theorem reads_take (b : Bytes) : Reads (take b.length) b b := by
  intro rest
  simp [StateT.run, take]

theorem reads_number {width n : Nat} (small : n < Nat.pow 256 width) :
    Reads (readNumber width) (Bytes.littleEndian width n) n := by
  have bytes := reads_take (Bytes.littleEndian width n)
  rw [Bytes.length_littleEndian] at bytes
  exact bytes.last (by rw [Bytes.ofLittleEndian_littleEndian small])

theorem reads_times {item : ByteReader α} {encodeItem : α → Bytes} {l : List α}
    (each : ∀ a ∈ l, Reads item (encodeItem a) a) :
    Reads (readTimes item l.length) (l.flatMap encodeItem) l := by
  induction l with
  | nil => exact fun rest => rfl
  | cons a rest ih =>
    have later := ih fun b mem => each b (List.mem_cons_of_mem _ mem)
    exact (each a List.mem_cons_self).bind (later.last rfl)

/-! ## Looking no further than needed -/

theorem steady_pure (a : α) : Steady (pure a : ByteReader α) := by
  intro b a' rest h more
  cases h
  rfl

theorem steady_failure : Steady (failure : ByteReader α) := by
  intro b a rest h
  cases h

theorem Steady.bind (first : Steady reader) (second : ∀ a, Steady (f a)) :
    Steady (reader >>= f) := by
  intro b a' rest h more
  obtain ⟨a, left, taken, ended⟩ := run_bind_eq_some_iff.mp h
  exact run_bind_eq_some_iff.mpr
    ⟨a, left ++ more, first _ _ _ taken more, second a _ _ _ ended more⟩

theorem Steady.map (first : Steady reader) (g : α → β) :
    Steady (do return g (← reader)) := first.bind fun a => steady_pure (g a)

theorem steady_ite {c : Prop} [Decidable c] {other : ByteReader α} (yes : Steady reader)
    (no : Steady other) : Steady (if c then reader else other) := by
  split
  · exact yes
  · exact no

theorem steady_take (count : Nat) : Steady (take count) := by
  intro b a rest h more
  simp only [StateT.run, take] at h ⊢
  split at h
  · next enough =>
    cases h
    rw [if_pos (by rw [List.length_append]; omega), List.take_append_of_le_length enough,
      List.drop_append_of_le_length enough]
  · cases h

theorem steady_readByte : Steady readByte := by
  intro b a rest h more
  cases b with
  | nil => cases h
  | cons x left =>
    cases h
    rfl

theorem steady_number (width : Nat) : Steady (readNumber width) := (steady_take width).map _

theorem steady_times {item : ByteReader α} (each : Steady item) :
    ∀ count, Steady (readTimes item count)
  | 0 => steady_pure []
  | count + 1 => each.bind fun _ => (steady_times each count).map _

/-- From bytes that end too early a steady reader takes nothing: otherwise it would take the same
from the whole and leave what was missing. -/
theorem Steady.run_torn (steady : Steady reader) {torn b : Bytes} {a : α} (read : Reads reader b a)
    (part : Torn torn b) : reader.run torn = none := by
  obtain ⟨⟨missing, rfl⟩, proper⟩ := part
  cases taken : reader.run torn with
  | none => rfl
  | some found =>
    -- the whole would be read the same, but with the missing bytes left over
    have whole := steady _ _ _ taken missing
    have all := read []
    rw [List.append_nil, whole, Option.some.injEq, Prod.mk.injEq] at all
    have nothing : missing = [] := (List.append_eq_nil_iff.mp all.2).2
    exact absurd (by rw [nothing, List.append_nil]) proper

/-! ## What is taken -/

theorem Yields.mono {P Q : α → Prop} (h : Yields reader P) (imp : ∀ a, P a → Q a) :
    Yields reader Q := fun b a rest taken => imp a (h b a rest taken)

theorem yields_pure {P : α → Prop} {a : α} (h : P a) : Yields (pure a : ByteReader α) P := by
  intro b a' rest taken
  cases taken
  exact h

theorem yields_failure {P : α → Prop} : Yields (failure : ByteReader α) P := by
  intro b a rest taken
  cases taken

theorem Yields.bind {P : α → Prop} {Q : β → Prop} (first : Yields reader P)
    (second : ∀ a, P a → Yields (f a) Q) : Yields (reader >>= f) Q := by
  intro b a' rest taken
  obtain ⟨a, left, begun, ended⟩ := run_bind_eq_some_iff.mp taken
  exact second a (first _ _ _ begun) _ _ _ ended

theorem yields_ite {c : Prop} [Decidable c] {other : ByteReader α} {P : α → Prop}
    (yes : Yields reader P) (no : Yields other P) : Yields (if c then reader else other) P := by
  split
  · exact yes
  · exact no

theorem yields_take (count : Nat) : Yields (take count) fun b => b.length = count := by
  intro b a rest h
  simp only [StateT.run, take] at h
  split at h
  · next enough =>
    cases h
    exact List.length_take_of_le enough
  · cases h

theorem yields_number (width : Nat) : Yields (readNumber width) fun n => n < Nat.pow 256 width :=
  (yields_take width).bind fun b length => yields_pure (length ▸ Bytes.ofLittleEndian_lt b)

theorem yields_times {item : ByteReader α} {P : α → Prop} (each : Yields item P) :
    ∀ count, Yields (readTimes item count) fun l => l.length = count ∧ ∀ a ∈ l, P a
  | 0 => yields_pure ⟨rfl, nofun⟩
  | count + 1 => each.bind fun a here => (yields_times each count).bind fun l rest =>
      yields_pure ⟨by rw [List.length_cons, rest.1], List.forall_mem_cons.mpr ⟨here, rest.2⟩⟩

end Stored

end VirtualModules
