/-
  TaeScanner.Lib.Json

  JSON values as a reader in C presents them: integers of 64 bits that remember
  whether they had a minus sign, objects with their members in order, and accessors
  that also take the null pointer of a member that is missing.
-/

import TaeScanner.Lib.Bytes

namespace TaeScanner.Lib

inductive Json
  | null
  | bool (b : Bool)
  /-- An integer without a minus sign. -/
  | uint (n : BitVec 64)
  /-- An integer with a minus sign. -/
  | sint (n : BitVec 64)
  | real (bits : BitVec 64)
  | str (s : String)
  | arr (elements : List Json)
  | obj (members : List (String × Json))

namespace Json

/-- The integer that is written. -/
def int? : Json → Option Int
  | uint n => some n.toNat
  | sint n => some n.toInt
  | _ => none

def isObj : Json → Bool
  | obj _ => true
  | _ => false

def isArr : Json → Bool
  | arr _ => true
  | _ => false

def isStr : Json → Bool
  | str _ => true
  | _ => false

/-- Any integer. -/
def isInt : Json → Bool
  | uint _ | sint _ => true
  | _ => false

/-- An integer without a minus sign. -/
def isUint : Json → Bool
  | uint _ => true
  | _ => false

/-- The low 32 bits of an integer, as a signed number. -/
def getInt : Json → Int
  | uint n | sint n => (n.truncate 32).toInt
  | _ => 0

/-- The 64 bits of an integer. -/
def getUint : Json → Nat
  | uint n | sint n => n.toNat
  | _ => 0

/-- A string up to its first NUL, the way a C string is read. -/
def getStr : Json → String
  | str s => String.ofList (s.toList.takeWhile fun c => c ≠ Char.ofNat 0)
  | _ => ""

/-- The characters of a string. -/
def text : Json → String
  | str s => s
  | _ => ""

def elements : Json → List Json
  | arr vs => vs
  | _ => []

def members : Json → List (String × Json)
  | obj ms => ms
  | _ => []

/-- The first member of the name. -/
def get? (v : Json) (name : String) : Option Json :=
  (v.members.find? fun m => m.1 = name).map (·.2)

-- ============================================================================
-- What the accessors say of a member
-- ============================================================================

section Accessors
variable {v : Option Json}

theorem any_isStr : v.any isStr = true ↔ ∃ s, v = some (str s) := by
  rcases v with _ | (_ | _ | _ | _ | _ | _ | _ | _) <;> simp [isStr]

theorem any_isUint : v.any isUint = true ↔ ∃ n, v = some (uint n) := by
  rcases v with _ | (_ | _ | _ | _ | _ | _ | _ | _) <;> simp [isUint]

theorem any_isInt : v.any isInt = true ↔ ∃ w n, v = some w ∧ w.int? = some n := by
  rcases v with _ | (_ | _ | _ | _ | _ | _ | _ | _) <;> simp [isInt, int?]

theorem fitsSigned_getInt (w : Json) : FitsSigned 4 w.getInt := by
  have hbits : ∀ x : BitVec 32, FitsSigned 4 x.toInt := by
    intro x
    have hlo := x.two_mul_toInt_lt
    have hhi := x.le_two_mul_toInt
    exact ⟨by omega, by omega⟩
  cases w with
  | uint x => exact hbits _
  | sint x => exact hbits _
  | _ => exact hbits 0

/-- The low 32 bits of the integer. -/
theorem getInt_eq_bmod {w : Json} {n : Int} (h : w.int? = some n) : w.getInt = n.bmod (2 ^ 32) := by
  cases w with
  | uint x =>
      obtain rfl := Option.some.inj h
      exact BitVec.toInt_setWidth x
  | sint x =>
      obtain rfl := Option.some.inj h
      rw [BitVec.toInt_eq_toNat_bmod, Int.bmod_bmod_of_dvd (pow_dvd_pow 2 (by decide : 32 ≤ 64))]
      exact BitVec.toInt_setWidth x
  | _ => cases h

/-- The low 32 bits of an integer are the integer iff it has no more. -/
theorem getInt_eq_iff {w : Json} {n : Int} (h : w.int? = some n) : w.getInt = n ↔ FitsSigned 4 n := by
  rw [getInt_eq_bmod h, Int.bmod_eq_iff (Nat.two_pow_pos 32), Int.sub_self, FitsSigned]
  constructor
  · rintro ⟨hlo, hhi, -⟩
    omega
  · rintro ⟨hlo, hhi⟩
    refine ⟨?_, ?_, Int.dvd_zero _⟩ <;> omega

end Accessors

-- ============================================================================
-- The number of values
-- ============================================================================

mutual

/-- Values and names in a document. -/
def size : Json → Nat
  | arr vs => 1 + elementsSize vs
  | obj ms => 1 + membersSize ms
  | _ => 1

def elementsSize : List Json → Nat
  | [] => 0
  | v :: vs => size v + elementsSize vs

def membersSize : List (String × Json) → Nat
  | [] => 0
  | (_, v) :: ms => 1 + size v + membersSize ms

end

theorem size_pos (v : Json) : 0 < v.size := by
  cases v with
  | arr vs => exact Nat.lt_of_lt_of_le Nat.zero_lt_one (Nat.le_add_right 1 _)
  | obj ms => exact Nat.lt_of_lt_of_le Nat.zero_lt_one (Nat.le_add_right 1 _)
  | _ => exact Nat.zero_lt_one

theorem length_le_elementsSize (vs : List Json) : vs.length ≤ elementsSize vs := by
  induction vs with
  | nil => exact Nat.le_refl 0
  | cons v vs ih =>
      have hpos := v.size_pos
      rw [elementsSize, List.length_cons]
      omega

theorem elements_length_le_size (v : Json) : v.elements.length ≤ v.size := by
  cases v with
  | arr vs =>
      have hle := length_le_elementsSize vs
      show vs.length ≤ 1 + elementsSize vs
      omega
  | _ => exact Nat.zero_le _

theorem size_le_membersSize {ms : List (String × Json)} {m : String × Json} (h : m ∈ ms) :
    m.2.size ≤ membersSize ms := by
  induction ms with
  | nil => cases h
  | cons m' ms ih =>
      obtain ⟨name, v⟩ := m'
      rw [membersSize]
      rcases List.mem_cons.mp h with rfl | h
      · show v.size ≤ _
        omega
      · have hle := ih h
        omega

/-- A member has fewer values than its object. -/
theorem get?_size_le {v w : Json} {name : String} (h : v.get? name = some w) : w.size ≤ v.size := by
  obtain ⟨m, hm, rfl⟩ := Option.map_eq_some_iff.mp h
  have hmem := List.mem_of_find?_eq_some hm
  cases v with
  | obj ms =>
      have hle : m.2.size ≤ membersSize ms := size_le_membersSize hmem
      show m.2.size ≤ 1 + membersSize ms
      omega
  | _ => cases hmem

/-- The elements of an array that is a member are no more than the values of its object. -/
theorem memberElements_length_le (v : Json) (name : String) :
    ((v.get? name).elim [] elements).length ≤ v.size := by
  cases hget : v.get? name with
  | none => exact Nat.zero_le _
  | some w => exact Nat.le_trans w.elements_length_le_size (get?_size_le hget)

end Json

/-- A reader of JSON texts.  Each value and each name of a document takes at least
    one byte of its text. -/
structure JsonReader where
  read : List Byte → Option Json
  size_le : ∀ {bytes : List Byte} {v : Json}, read bytes = some v → v.size ≤ bytes.length

/-- The reader of a single document. -/
def JsonReader.only (text : List Byte) (root : Json) (h : root.size ≤ text.length) : JsonReader where
  read bytes := if bytes = text then some root else none
  size_le := by
    intro bytes v hread
    split at hread
    · obtain rfl := Option.some.inj hread
      rwa [‹bytes = text›]
    · cases hread

theorem JsonReader.only_read {text : List Byte} {root : Json} (h : root.size ≤ text.length) :
    (JsonReader.only text root h).read text = some root :=
  if_pos rfl

end TaeScanner.Lib
