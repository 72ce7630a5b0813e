import LedgerExport.Json.Compact
import LedgerExport.Proofs.JsonText

/-!
# The grammar of JSON text

`Json.Spells` relates a JSON value to the texts that spell it, with white space wherever JSON allows
it, and `spells_compactChars` says that the compact text of a value is one of them. The parts of an
array and of an object are pieces of their own, so that an induction on a spelling meets the items
and the members one by one.
-/

namespace LedgerExport

open Text

namespace Json

open Ion.FlatObject (IsBlank)

/-- What a part of a JSON text spells. -/
inductive Piece where
  /-- A value. -/
  | value (j : Json)
  /-- The items of an array, at least one. -/
  | items (items : List Json)
  /-- The members of an object, at least one. -/
  | members (members : List (String × Json))

/-- The ways to write a JSON value. White space may stand around every value and every name. -/
inductive Spells : Piece → List Char → Prop where
  /-- A null. -/
  | null : Spells (.value .null) ['n', 'u', 'l', 'l']
  /-- A truth value. -/
  | bool (b : Bool) : Spells (.value (.bool b)) (compactChars (.bool b))
  /-- An integer. -/
  | int (n : Int) : Spells (.value (.int n)) (intText n)
  /-- A number with a point. -/
  | decimal (coefficient : Int) (places : Nat) :
    Spells (.value (.decimal coefficient places)) (decimalText coefficient places)
  /-- A string. -/
  | str {s raw : List Char} (spells : Ion.Quoted.Spells s raw) :
    Spells (.value (.str (String.ofList s))) ('"' :: raw ++ ['"'])
  /-- An array without items. -/
  | emptyArr {w : List Char} (h : IsBlank w) : Spells (.value (.arr [])) ('[' :: w ++ [']'])
  /-- An array. -/
  | arr {w t : List Char} {items : List Json} (h : IsBlank w) (body : Spells (.items items) t) :
    Spells (.value (.arr items)) ('[' :: w ++ t ++ [']'])
  /-- An object without members. -/
  | emptyObj {w : List Char} (h : IsBlank w) :
    Spells (.value (.obj [])) ('\x7b' :: w ++ ['\x7d'])
  /-- An object. -/
  | obj {w t : List Char} {members : List (String × Json)} (h : IsBlank w)
    (body : Spells (.members members) t) :
    Spells (.value (.obj members)) ('\x7b' :: w ++ t ++ ['\x7d'])
  /-- The last item of an array. -/
  | lastItem {t w : List Char} {j : Json} (item : Spells (.value j) t) (h : IsBlank w) :
    Spells (.items [j]) (t ++ w)
  /-- An item with others behind it. -/
  | moreItems {t w w' rest : List Char} {j : Json} {items : List Json}
    (item : Spells (.value j) t) (h : IsBlank w) (h' : IsBlank w')
    (others : Spells (.items items) rest) :
    Spells (.items (j :: items)) (t ++ (w ++ ',' :: (w' ++ rest)))
  /-- The last member of an object. -/
  | lastMember {s raw t w₁ w₂ w₃ : List Char} {j : Json} (name : Ion.Quoted.Spells s raw)
    (h₁ : IsBlank w₁) (h₂ : IsBlank w₂) (value : Spells (.value j) t) (h₃ : IsBlank w₃) :
    Spells (.members [(String.ofList s, j)])
      ('"' :: raw ++ '"' :: (w₁ ++ ':' :: w₂) ++ (t ++ w₃))
  /-- A member with others behind it. -/
  | moreMembers {s raw t w₁ w₂ w₃ w₄ rest : List Char} {j : Json}
    {members : List (String × Json)} (name : Ion.Quoted.Spells s raw) (h₁ : IsBlank w₁)
    (h₂ : IsBlank w₂) (value : Spells (.value j) t) (h₃ : IsBlank w₃) (h₄ : IsBlank w₄)
    (others : Spells (.members members) rest) :
    Spells (.members ((String.ofList s, j) :: members))
      ('"' :: raw ++ '"' :: (w₁ ++ ':' :: w₂) ++ (t ++ (w₃ ++ ',' :: (w₄ ++ rest))))

end Json

/-! ## Compact text -/

namespace Ion.Quoted

open Json

/-- A character is escaped by a letter or, if it is another control character, by its code; all else
stands for itself. -/
theorem escaped_cases (c : Char) :
    (∃ l, (l, c) ∈ jsonEscapes ∧ escaped c = ['\\', l]) ∨
      (c.toNat < 0x20 ∧
        escaped c = ['\\', 'u', '0', '0', hexDigit (c.toNat / 16), hexDigit c.toNat]) ∨
      (isPlain c = true ∧ escaped c = [c]) := by
  unfold escaped
  -- The letters come first.
  iterate 7
    split
    · subst c
      exact .inl ⟨_, by decide, rfl⟩
  split
  · rename_i hcontrol
    exact .inr (.inl ⟨hcontrol, rfl⟩)
  · rename_i hquote hslash _ _ _ _ _ hcontrol
    refine .inr (.inr ⟨isPlain_iff.2 ⟨?_, hquote, hslash⟩, rfl⟩)
    show 32 ≤ c.toNat
    omega

/-- The escaped characters of a string spell the string. -/
theorem spells_escaped (s : List Char) : Spells s (s.flatMap escaped) := by
  induction s with
  | nil => exact .nil
  | cons c s ih =>
    rw [List.flatMap_cons]
    rcases escaped_cases c with ⟨l, hknown, htext⟩ | ⟨hcontrol, htext⟩ | ⟨hplain, htext⟩ <;>
      rw [htext]
    · exact .letter hknown ih
    · have htable : ∀ n : Fin 32,
          ofDigitsIn? 16 ['0', '0', hexDigit (n.val / 16), hexDigit n.val] = some n.val := by decide
      exact .code (htable ⟨c.toNat, hcontrol⟩) ih
    · exact .plain hplain ih

end Ion.Quoted

namespace Json

open Ion Ion.FlatObject

mutual

/-- The compact text of a value spells the value. -/
theorem spells_compactChars : ∀ j : Json, Spells (.value j) (compactChars j)
  | .null => .null
  | .bool b => .bool b
  | .int n => .int n
  | .decimal coefficient places => .decimal coefficient places
  | .str s => by
    have h := Spells.str (Quoted.spells_escaped s.toList)
    rwa [String.ofList_toList] at h
  | .arr [] => .emptyArr isBlank_nil
  | .arr (j :: rest) => .arr isBlank_nil (spells_compactItems (j :: rest) (by simp))
  | .obj [] => .emptyObj isBlank_nil
  | .obj (m :: rest) => .obj isBlank_nil (spells_compactMembers (m :: rest) (by simp))

/-- The compact text of items spells the items. -/
theorem spells_compactItems :
    ∀ items : List Json, items ≠ [] → Spells (.items items) (compactItems items)
  | [], h => absurd rfl h
  | [j], _ => by
    have h := Spells.lastItem (spells_compactChars j) isBlank_nil
    rwa [List.append_nil] at h
  | j :: j' :: rest, _ =>
    .moreItems (spells_compactChars j) isBlank_nil isBlank_nil
      (spells_compactItems (j' :: rest) (by simp))

/-- The compact text of members spells the members. -/
theorem spells_compactMembers : ∀ members : List (String × Json), members ≠ [] →
    Spells (.members members) (compactMembers members)
  | [], h => absurd rfl h
  | [(name, j)], _ => by
    have h := Spells.lastMember (Quoted.spells_escaped name.toList) isBlank_nil isBlank_nil
      (spells_compactChars j) isBlank_nil
    rw [String.ofList_toList] at h
    simpa [compactMembers, quoted] using h
  | (name, j) :: m :: rest, _ => by
    have h := Spells.moreMembers (Quoted.spells_escaped name.toList) isBlank_nil isBlank_nil
      (spells_compactChars j) isBlank_nil isBlank_nil (spells_compactMembers (m :: rest) (by simp))
    rw [String.ofList_toList] at h
    simpa [compactMembers, quoted] using h

end

end Json

end LedgerExport
