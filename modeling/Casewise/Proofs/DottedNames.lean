import Casewise.Text.Dotted
import Mathlib.Data.String.Basic

namespace Casewise.Dotted

def IsWord (name : String) : Prop := '.' ∉ name.toList

instance (name : String) : Decidable (IsWord name) := inferInstanceAs (Decidable (_ ∉ _))

theorem split_nil (part : List Char) : split part [] = [part.reverse] := rfl

theorem split_cons (part : List Char) (c : Char) (cs : List Char) :
    split part (c :: cs) = if c = '.' then part.reverse :: split [] cs else split (c :: part) cs := rfl

theorem split_ne_nil (part cs : List Char) : split part cs ≠ [] := by
  induction cs generalizing part with
  | nil => simp [split_nil]
  | cons c cs ih =>
    rw [split_cons]
    split
    · simp
    · exact ih _

theorem split_of_no_dot (part cs : List Char) (h : '.' ∉ cs) : split part cs = [part.reverse ++ cs] := by
  induction cs generalizing part with
  | nil => simp [split_nil]
  | cons c cs ih =>
    obtain ⟨hc, hcs⟩ := not_or.mp (mt List.mem_cons.mpr h)
    rw [split_cons, if_neg (Ne.symm hc), ih _ hcs]
    simp

theorem split_append_dot (part cs rest : List Char) (h : '.' ∉ cs) :
    split part (cs ++ '.' :: rest) = (part.reverse ++ cs) :: split [] rest := by
  induction cs generalizing part with
  | nil => simp [split_cons]
  | cons c cs ih =>
    obtain ⟨hc, hcs⟩ := not_or.mp (mt List.mem_cons.mpr h)
    rw [List.cons_append, split_cons, if_neg (Ne.symm hc), ih _ hcs]
    simp

theorem no_dot_of_mem_split {part cs xs : List Char} (hp : '.' ∉ part) (h : xs ∈ split part cs) : '.' ∉ xs := by
  induction cs generalizing part with
  | nil =>
    rw [split_nil, List.mem_singleton] at h
    simpa [h] using hp
  | cons c cs ih =>
    rw [split_cons] at h
    split at h
    · rcases List.mem_cons.mp h with rfl | h
      · simpa using hp
      · exact ih List.not_mem_nil h
    · next hc => exact ih (by simpa [Ne.symm hc] using hp) h

theorem intercalate_split (part cs : List Char) : ['.'].intercalate (split part cs) = part.reverse ++ cs := by
  induction cs generalizing part with
  | nil => simp [split_nil]
  | cons c cs ih =>
    rw [split_cons]
    split
    · next hc =>
      obtain ⟨x, xs, hx⟩ := List.exists_cons_of_ne_nil (split_ne_nil [] cs)
      have hcs := ih []
      rw [hx] at hcs ⊢
      simp [hcs, hc]
    · rw [ih]
      simp

theorem parts_of_isWord {name : String} (h : IsWord name) : parts name = [name] := by
  simp [parts, split_of_no_dot [] _ h]

theorem isWord_of_mem_parts {name part : String} (h : part ∈ parts name) : IsWord part := by
  obtain ⟨cs, hcs, rfl⟩ := List.mem_map.mp h
  simpa [IsWord] using no_dot_of_mem_split List.not_mem_nil hcs

theorem join_parts (name : String) : join (parts name) = name := by
  apply String.toList_injective
  simpa [join, parts, String.toList_intercalate, Function.comp_def] using intercalate_split [] name.toList

theorem parts_word_dot {word : String} (hw : IsWord word) (rest : String) :
    parts (word ++ "." ++ rest) = word :: parts rest := by
  simp [parts, split_append_dot [] _ _ hw]

theorem parts_ne_nil (name : String) : parts name ≠ [] := by
  simpa [parts] using split_ne_nil [] name.toList

theorem exists_parts_of_dotted {name : String} (h : ¬ IsWord name) :
    ∃ root part path, parts name = root :: part :: path := by
  obtain ⟨root, rest, hp⟩ := List.exists_cons_of_ne_nil (parts_ne_nil name)
  cases rest with
  | nil =>
    have hname : join [root] = name := hp ▸ join_parts name
    have hmem : root ∈ parts name := by simp [hp]
    have hroot : IsWord root := isWord_of_mem_parts hmem
    rw [join, String.intercalate_singleton] at hname
    exact absurd (hname ▸ hroot) h
  | cons part path => exact ⟨root, part, path, hp⟩

theorem isUnder_iff {path name : String} : isUnder path name = true ↔ ∃ rest, name = path ++ "." ++ rest := by
  rw [isUnder, List.isPrefixOf_iff_prefix]
  constructor
  · rintro ⟨cs, h⟩
    refine ⟨String.ofList cs, String.toList_injective ?_⟩
    rw [String.toList_append, String.toList_ofList, h]
  · rintro ⟨rest, rfl⟩
    exact ⟨rest.toList, (String.toList_append ..).symm⟩

theorem isUnder_word_iff {word name : String} (hw : IsWord word) :
    isUnder word name = true ↔ ∃ part path, parts name = word :: part :: path := by
  rw [isUnder_iff]
  constructor
  · rintro ⟨rest, rfl⟩
    obtain ⟨part, path, hp⟩ := List.exists_cons_of_ne_nil (parts_ne_nil rest)
    exact ⟨part, path, by rw [parts_word_dot hw, hp]⟩
  · rintro ⟨part, path, hp⟩
    refine ⟨join (part :: path), ?_⟩
    rw [← join_parts name, hp, join, String.intercalate_cons_cons]
    rfl

theorem after_self (path : String) : after path path.length = "" := by
  rw [after, ← String.length_toList, List.drop_length]

theorem after_path_dot (path rest : String) : after (path ++ "." ++ rest) path.length = "." ++ rest := by
  apply String.toList_injective
  simp [after, ← String.length_toList, String.append_assoc]

theorem not_isUnder_of_isWord {path name : String} (h : IsWord name) : ¬ isUnder path name = true := by
  rw [isUnder_iff]
  rintro ⟨rest, rfl⟩
  simp [IsWord] at h

theorem not_isUnder_self (path : String) : ¬ isUnder path path = true := by
  rw [isUnder_iff]
  rintro ⟨rest, h⟩
  have hlen := congrArg String.length h
  rw [String.length_append, String.length_append, show ".".length = 1 from rfl] at hlen
  omega

end Casewise.Dotted
