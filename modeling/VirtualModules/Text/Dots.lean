/-!
# Dots in texts

A text is cut at its last dot (`cutLast`), or before each of its dots (`beforeDots`). Both are told
by the text before the last dot and the undotted rest behind it: `cutLast_append`,
`beforeDots_append`.
-/

namespace VirtualModules

/-- What stands before the last dot of a text, if it has one, and what stands behind it. -/
def cutLast (cs : List Char) : Option (List Char) × List Char :=
  match cs.reverse.dropWhile (· != '.') with
  | [] => (none, cs)
  | _ :: before => (some before.reverse, (cs.reverse.takeWhile (· != '.')).reverse)

/-- What stands before each dot of a text, the longest first. -/
def beforeDots (cs : List Char) : List (List Char) :=
  (cs.zipIdx.filter fun (c, _) => c == '.').reverse.map fun (_, i) => cs.take i

theorem bne_dot_of_mem_reverse {name : List Char} (undotted : '.' ∉ name) :
    ∀ c ∈ name.reverse, (c != '.') = true := by
  intro c mem
  rw [bne_iff_ne]
  rintro rfl
  exact undotted (List.mem_reverse.mp mem)

theorem cutLast_of_not_mem {cs : List Char} (undotted : '.' ∉ cs) : cutLast cs = (none, cs) := by
  have all : (cs.reverse ++ []).dropWhile (· != '.') = [] :=
    List.dropWhile_append_of_pos (bne_dot_of_mem_reverse undotted)
  rw [List.append_nil] at all
  simp only [cutLast, all]

theorem cutLast_append {before name : List Char} (undotted : '.' ∉ name) :
    cutLast (before ++ '.' :: name) = (some before, name) := by
  have others := bne_dot_of_mem_reverse undotted
  have reversed : (before ++ '.' :: name).reverse = name.reverse ++ '.' :: before.reverse := by
    simp
  have dot : ('.' != '.') = false := rfl
  simp only [cutLast, reversed, List.dropWhile_append_of_pos others,
    List.takeWhile_append_of_pos others, List.dropWhile_cons, List.takeWhile_cons, dot,
    Bool.false_eq_true, if_false, List.append_nil, List.reverse_reverse]

/-- A text has no dot, or there is a last one. -/
theorem undotted_or_last_dot (cs : List Char) :
    '.' ∉ cs ∨ ∃ before name, cs = before ++ '.' :: name ∧ '.' ∉ name := by
  by_cases dotted : '.' ∈ cs
  · obtain ⟨after, before, cut, undotted⟩ :=
      List.eq_append_cons_of_mem (List.mem_reverse.mpr dotted)
    refine .inr ⟨before.reverse, after.reverse, ?_, fun mem => undotted (List.mem_reverse.mp mem)⟩
    rw [← List.reverse_reverse cs, cut]
    simp
  · exact .inl dotted

/-- What stands before a dot is a part of the text that ends there. -/
theorem exists_after_of_mem_beforeDots {cs before : List Char} (mem : before ∈ beforeDots cs) :
    ∃ after, cs = before ++ '.' :: after := by
  obtain ⟨⟨c, i⟩, found, rfl⟩ := List.mem_map.mp mem
  obtain ⟨at_dot, is_dot⟩ := List.mem_filter.mp (List.mem_reverse.mp found)
  rw [List.mk_mem_zipIdx_iff_getElem?] at at_dot
  obtain ⟨bound, here⟩ := List.getElem?_eq_some_iff.mp at_dot
  refine ⟨cs.drop (i + 1), ?_⟩
  change cs = cs.take i ++ '.' :: cs.drop (i + 1)
  rw [← eq_of_beq is_dot, ← here, ← List.drop_eq_getElem_cons bound, List.take_append_drop]

theorem beforeDots_of_not_mem {cs : List Char} (undotted : '.' ∉ cs) : beforeDots cs = [] := by
  refine List.eq_nil_iff_forall_not_mem.mpr fun before mem => ?_
  obtain ⟨after, cut⟩ := exists_after_of_mem_beforeDots mem
  exact undotted (cut ▸ List.mem_append_right _ List.mem_cons_self)

/-- What stands before the last dot is followed by what stands before the dots of that. -/
theorem beforeDots_append {before name : List Char} (undotted : '.' ∉ name) :
    beforeDots (before ++ '.' :: name) = before :: beforeDots before := by
  have none_behind : (name.zipIdx (before.length + 1)).filter (fun (c, _) => c == '.') = [] := by
    rw [List.filter_eq_nil_iff]
    rintro ⟨c, i⟩ mem is_dot
    exact undotted (eq_of_beq is_dot ▸ List.fst_mem_of_mem_zipIdx mem)
  have dots : ((before ++ '.' :: name).zipIdx.filter fun (c, _) => c == '.') =
      (before.zipIdx.filter fun (c, _) => c == '.') ++ [('.', before.length)] := by
    rw [List.zipIdx_append, List.filter_append, List.zipIdx_cons, Nat.zero_add]
    simp [none_behind]
  simp only [beforeDots, dots, List.reverse_append, List.reverse_singleton, List.singleton_append,
    List.map_cons, List.take_left]
  refine congrArg _ (List.map_congr_left ?_)
  rintro ⟨c, i⟩ mem
  have bound : i < before.length := by
    have within := List.snd_lt_of_mem_zipIdx (List.mem_filter.mp (List.mem_reverse.mp mem)).1
    omega
  exact List.take_append_of_le_length (Nat.le_of_lt bound)

end VirtualModules
