import VirtualModules.Artifact.Stamp
import VirtualModules.Fingerprint

/-!
# Lines and unions as texts

Artifacts are written line by line, and the union of some types as their texts with bars between
them. Both are determined by what they are written from, as long as no line is broken (`Unbroken`)
and no type holds a blank:

* `join_ended_inj`: texts of ended lines are equal only if the lines are.
* `textLines_join_ended`: the lines of a text of ended lines are those lines, also if more text
  follows (`textLines_join_ended_append`), and even if others are broken, each that is not is one
  of them (`mem_textLines_join_ended`).
* `intercalate_bar_inj`: unions are equal only if the types are.

Paths, identifiers and fingerprints are neither broken nor do they hold blanks
(`ImportPath.not_mem_text`, `Identifier.not_mem_text`, `Fingerprint.not_mem_toHex`).
-/

namespace VirtualModules

/-! ## Which characters occur -/

theorem not_mem_identifier {cs : List Char} (h : isIdentifier cs = true) {c : Char}
    (other : isIdentifierChar c = false) : c ∉ cs := by
  intro mem
  rw [List.all_eq_true.mp (all_isIdentifierChar h) c mem] at other
  cases other

theorem not_mem_hexDigits (width n : Nat) {c : Char} (other : isIdentifierChar c = false) :
    c ∉ hexDigits width n := by
  intro mem
  rw [List.all_eq_true.mp (all_isIdentifierChar_hexDigits width n) c mem] at other
  cases other

theorem Identifier.not_mem_text (i : Identifier) {c : Char} (other : isIdentifierChar c = false) :
    c ∉ i.text.toList := by
  simpa [Identifier.text] using not_mem_identifier i.valid other

theorem Identifier.ext_text {i j : Identifier} (h : i.text = j.text) : i = j := by
  have chars := congrArg String.toList h
  simp only [Identifier.text, String.toList_ofList] at chars
  cases i
  cases j
  cases chars
  rfl

theorem Fingerprint.not_mem_toHex (f : Fingerprint) {c : Char}
    (other : isIdentifierChar c = false) : c ∉ f.toHex.toList := by
  simp only [Fingerprint.toHex, Bytes.toHex, String.toList_ofList, List.mem_flatMap, not_exists,
    not_and]
  exact fun b _ => not_mem_hexDigits 2 b.toNat other

/-- Every character of a path is a dot or an identifier's. -/
theorem ImportPath.not_mem_text (p : ImportPath) {c : Char} (other : isIdentifierChar c = false)
    (notDot : c ≠ '.') : c ∉ p.text.toList := by
  have whole : ['.'].intercalate (p.text.toList.splitOn '.') = p.text.toList :=
    List.intercalate_splitOn '.'
  rw [← whole]
  intro mem
  have pieces : ∀ cs ∈ p.text.toList.splitOn '.', c ∉ cs := fun cs h =>
    not_mem_identifier (ImportPath.isIdentifier_of_mem_segmentChars h) other
  generalize p.text.toList.splitOn '.' = names at mem pieces
  induction names with
  | nil => simp at mem
  | cons name rest ih =>
    cases rest with
    | nil =>
      rw [List.intercalate_singleton] at mem
      exact pieces name List.mem_cons_self mem
    | cons next rest =>
      simp only [List.intercalate_cons_cons, List.mem_append, List.mem_singleton] at mem
      rcases mem with (mem | mem) | mem
      · exact pieces name List.mem_cons_self mem
      · exact notDot mem
      · exact ih mem fun cs h => pieces cs (List.mem_cons_of_mem _ h)

theorem ImportPath.text_ne_empty (p : ImportPath) : p.text ≠ "" := by
  intro h
  have valid := p.valid
  rw [h] at valid
  exact absurd valid (by decide)

/-! ## Cutting at the first of a kind -/

/-- Two texts are equal only if their parts before and after the first separator are. -/
theorem append_cons_inj {c : Char} {as bs cs ds : List Char} (ha : c ∉ as) (hb : c ∉ bs)
    (h : as ++ c :: cs = bs ++ c :: ds) : as = bs ∧ cs = ds := by
  induction as generalizing bs with
  | nil =>
    cases bs with
    | nil => exact ⟨rfl, by simpa using h⟩
    | cons b bs =>
      obtain ⟨rfl, -⟩ := List.cons_eq_cons.mp h
      exact absurd List.mem_cons_self hb
  | cons a as ih =>
    cases bs with
    | nil =>
      obtain ⟨rfl, -⟩ := List.cons_eq_cons.mp h
      exact absurd List.mem_cons_self ha
    | cons b bs =>
      obtain ⟨rfl, rest⟩ := List.cons_eq_cons.mp h
      obtain ⟨rfl, same⟩ := ih (fun m => ha (List.mem_cons_of_mem _ m))
        (fun m => hb (List.mem_cons_of_mem _ m)) rest
      exact ⟨rfl, same⟩

/-- The same for texts, where the separator is the first character of a longer one. -/
theorem append_inj_of_first {sep : String} {c : Char} {rest : List Char}
    (starts : sep.toList = c :: rest) {s t u v : String} (hs : c ∉ s.toList) (ht : c ∉ t.toList)
    (h : s ++ (sep ++ u) = t ++ (sep ++ v)) : s = t ∧ u = v := by
  have chars := congrArg String.toList h
  simp only [String.toList_append, starts, List.cons_append] at chars
  obtain ⟨same, tails⟩ := append_cons_inj hs ht chars
  exact ⟨String.toList_inj.mp same, String.toList_inj.mp (List.append_cancel_left tails)⟩

/-! ## Texts of lines -/

/-- A text that stays within one line. -/
def Unbroken (s : String) : Prop := '\n' ∉ s.toList ∧ '\r' ∉ s.toList

instance (s : String) : Decidable (Unbroken s) := inferInstanceAs (Decidable (_ ∧ _))

/-- A text that is one line once a line feed follows it. -/
def OneLine (s : String) : Prop := '\n' ∉ s.toList ∧ s.toList.getLast? ≠ some '\r'

instance (s : String) : Decidable (OneLine s) := inferInstanceAs (Decidable (_ ∧ _))

theorem Unbroken.oneLine {s : String} (h : Unbroken s) : OneLine s :=
  ⟨h.1, fun ends => h.2 (List.mem_of_getLast? ends)⟩

theorem not_mem_append {c : Char} {s t : String} (hs : c ∉ s.toList) (ht : c ∉ t.toList) :
    c ∉ (s ++ t).toList := by
  rw [String.toList_append, List.mem_append, not_or]
  exact ⟨hs, ht⟩

theorem OneLine.append {s t : String} (hs : '\n' ∉ s.toList) (ht : OneLine t)
    (nonempty : t.toList ≠ []) : OneLine (s ++ t) := by
  refine ⟨not_mem_append hs ht.1, ?_⟩
  rw [String.toList_append, List.getLast?_append]
  cases last : t.toList.getLast? with
  | none => exact absurd (List.getLast?_eq_none_iff.mp last) nonempty
  | some c =>
    rw [Option.some_or, ← last]
    exact ht.2

theorem Unbroken.append {s t : String} (hs : Unbroken s) (ht : Unbroken t) : Unbroken (s ++ t) := by
  simp only [Unbroken, String.toList_append, List.mem_append, not_or]
  exact ⟨⟨hs.1, ht.1⟩, hs.2, ht.2⟩

theorem Identifier.unbroken_text (i : Identifier) : Unbroken i.text :=
  ⟨i.not_mem_text rfl, i.not_mem_text rfl⟩

theorem ImportPath.unbroken_text (p : ImportPath) : Unbroken p.text :=
  ⟨p.not_mem_text rfl (by decide), p.not_mem_text rfl (by decide)⟩

theorem Fingerprint.unbroken_toHex (f : Fingerprint) : Unbroken f.toHex :=
  ⟨f.not_mem_toHex rfl, f.not_mem_toHex rfl⟩

/-- Texts of ended lines are equal only if the lines are. -/
theorem join_ended_inj {ls ks : List String} (hl : ∀ l ∈ ls, Unbroken l)
    (hk : ∀ k ∈ ks, Unbroken k)
    (h : String.join (ls.map (· ++ "\n")) = String.join (ks.map (· ++ "\n"))) : ls = ks := by
  induction ls generalizing ks with
  | nil =>
    cases ks with
    | nil => rfl
    | cons k ks => simpa using congrArg String.toList h
  | cons l ls ih =>
    cases ks with
    | nil => simpa using congrArg String.toList h
    | cons k ks =>
      simp only [List.map_cons, String.join_cons, String.append_assoc] at h
      obtain ⟨rfl, rest⟩ := append_inj_of_first (c := '\n') rfl (hl l List.mem_cons_self).1
        (hk k List.mem_cons_self).1 h
      rw [ih (fun l' m => hl l' (List.mem_cons_of_mem _ m))
        (fun k' m => hk k' (List.mem_cons_of_mem _ m)) rest]

/-- A line feed ends a line, whatever comes before. -/
theorem textLines_append_cons (before after : List Char) :
    textLines (before ++ '\n' :: after) =
      (before.splitOn '\n').map dropReturn ++ textLines after := by
  obtain ⟨init, last, pieces⟩ := List.eq_nil_or_concat (after.splitOn '\n') |>.resolve_left (by simp)
  rw [List.concat_eq_append] at pieces
  simp only [textLines, List.splitOn_append_cons_self, pieces, ← List.append_assoc,
    List.dropLast_concat, List.getLast?_concat, List.map_append]
  cases last <;> simp

/-- The lines of a text that starts with ended lines are those lines and the lines of the rest. -/
theorem textLines_join_ended_append {ls : List String} (h : ∀ l ∈ ls, OneLine l)
    (rest : List Char) :
    textLines ((String.join (ls.map (· ++ "\n"))).toList ++ rest) =
      ls.map String.toList ++ textLines rest := by
  induction ls with
  | nil => rfl
  | cons l ls ih =>
    have one := h l List.mem_cons_self
    have text : (String.join ((l :: ls).map (· ++ "\n"))).toList ++ rest =
        l.toList ++ '\n' :: ((String.join (ls.map (· ++ "\n"))).toList ++ rest) := by
      simp [String.join_cons]
    have unchanged : dropReturn l.toList = l.toList := if_neg one.2
    rw [text, textLines_append_cons, List.splitOn_eq_singleton one.1,
      ih fun l' mem => h l' (List.mem_cons_of_mem _ mem), List.map_singleton, unchanged]
    rfl

/-- The lines of a text of ended lines are those lines. -/
theorem textLines_join_ended {ls : List String} (h : ∀ l ∈ ls, OneLine l) :
    textLines (String.join (ls.map (· ++ "\n"))).toList = ls.map String.toList := by
  have lines := textLines_join_ended_append h []
  rwa [List.append_nil, show textLines [] = [] from rfl, List.append_nil] at lines

/-- What is written as one line is a line of the text, whatever is written around it. -/
theorem mem_textLines_join_ended {ls : List String} {l : String} (mem : l ∈ ls) (one : OneLine l) :
    l.toList ∈ textLines (String.join (ls.map (· ++ "\n"))).toList := by
  induction ls with
  | nil => cases mem
  | cons k ls ih =>
    have text : (String.join ((k :: ls).map (· ++ "\n"))).toList =
        k.toList ++ '\n' :: (String.join (ls.map (· ++ "\n"))).toList := by
      simp [String.join_cons]
    rw [text, textLines_append_cons, List.mem_append]
    rcases List.mem_cons.mp mem with rfl | mem
    · have unchanged : dropReturn l.toList = l.toList := if_neg one.2
      refine .inl (List.mem_map.mpr ⟨l.toList, ?_, unchanged⟩)
      rw [List.splitOn_eq_singleton one.1]
      exact List.mem_singleton_self _
    · exact .inr (ih mem)

/-! ## Unions of types -/

/-- Unions of at least one type are equal only if the types are. -/
theorem intercalate_bar_inj {ts us : List String} (ht : ∀ t ∈ ts, ' ' ∉ t.toList)
    (hu : ∀ u ∈ us, ' ' ∉ u.toList) (nonempty : ts ≠ []) (nonempty' : us ≠ [])
    (h : " | ".intercalate ts = " | ".intercalate us) : ts = us := by
  induction ts generalizing us with
  | nil => exact absurd rfl nonempty
  | cons t ts ih =>
    obtain ⟨u, us, rfl⟩ := List.exists_cons_of_ne_nil nonempty'
    have blank_t := ht t List.mem_cons_self
    have blank_u := hu u List.mem_cons_self
    -- a union of one type holds no blank, one of more types does
    cases ts with
    | nil =>
      cases us with
      | nil => simpa using h
      | cons u' us =>
        rw [String.intercalate_singleton, String.intercalate_cons_cons] at h
        subst h
        simp at blank_t
    | cons t' ts =>
      cases us with
      | nil =>
        rw [String.intercalate_singleton, String.intercalate_cons_cons] at h
        subst h
        simp at blank_u
      | cons u' us =>
        simp only [String.intercalate_cons_cons, String.append_assoc] at h
        obtain ⟨rfl, rest⟩ := append_inj_of_first (c := ' ') rfl blank_t blank_u h
        rw [ih (fun x m => ht x (List.mem_cons_of_mem _ m))
          (fun x m => hu x (List.mem_cons_of_mem _ m)) (by simp) (by simp) rest]

end VirtualModules
