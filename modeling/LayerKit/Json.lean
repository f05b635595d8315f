import Mathlib.Data.List.Induction
import Mathlib.Data.Rat.Defs
import Mathlib.Data.String.Basic
import Mathlib.Order.Lattice

/-!
# JSON Values

JSON values as `serde_json` has them: numbers are unsigned or negative 64-bit integers or
finite doubles (by their rational value), and an object is the list of its members in the
order of their keys. The accessors are total and answer `none` on the wrong shape, and
`Value.index` is the indexing that yields `null` there.

The library does not print or parse: a `Codec` is what a program that does so relies on.

## Main results

* `lookup_insert`, `lookup_modify`, `lookup_map`, `lookup_remove`, `lookup_members`: reading an
  object after writing.
* `insert_insert`, `insert_comm`: setting members again, and in another order.
* `Value.depth_lt_of_mem_members`, `Value.depth_lt_of_mem`: what an object or an array holds is
  less deep, which is what recursions over values go down on.
-/

namespace Json

/-! ### Values -/

/-- A number: an unsigned or a negative 64-bit integer, or a finite double. -/
inductive Number
  | posInt (n : UInt64)
  | negInt (i : Int64)
  | float (q : ℚ)
deriving DecidableEq

/-- A signed 32-bit integer as a number. -/
def Number.ofInt32 (i : Int32) : Number :=
  if i < 0 then .negInt i.toInt64 else .posInt i.toInt64.toUInt64

/-- A JSON value. -/
inductive Value
  | null
  | bool (b : Bool)
  | number (n : Number)
  | string (s : String)
  | array (vs : List Value)
  | object (ms : List (String × Value))

/-- The members of an object. -/
abbrev Members := List (String × Value)

/-- The printer and the parsers of a JSON library; errors are their texts. -/
structure Codec where
  toString : Value → String
  fromStr : String → Except String Value
  fromSlice : List UInt8 → Except String Value

/-- Printing a value and parsing the text gives the value back. -/
def Codec.Inverts (C : Codec) (v : Value) : Prop :=
  C.fromStr (C.toString v) = .ok v

/-! ### Members -/

/-- The names of the members, in their order. -/
def keys (ms : Members) : List String :=
  ms.map Prod.fst

/-- Set a member: replace its value, or place it before the first greater key. -/
def insert (k : String) (v : Value) : Members → Members
  | [] => [(k, v)]
  | m :: ms =>
      if m.1 = k then (k, v) :: ms
      else if k < m.1 then (k, v) :: m :: ms
      else m :: insert k v ms

/-- Change the value of a member that is there. -/
def modify (k : String) (f : Value → Value) : Members → Members
  | [] => []
  | m :: ms => if m.1 = k then (k, f m.2) :: ms else m :: modify k f ms

/-- Remove a member. -/
def remove (k : String) (ms : Members) : Members :=
  ms.filter fun m => m.1 ≠ k

/-- The members of an object that is written out. -/
def members (ms : Members) : Members :=
  ms.foldl (fun acc m => insert m.1 m.2 acc) []

/-- An object written out by its members. -/
def obj (ms : Members) : Value :=
  .object (members ms)

/-- Change every value. -/
def mapValues (f : Value → Value) (ms : Members) : Members :=
  ms.map fun m => (m.1, f m.2)

/-- A lookup goes on while the name is another. -/
theorem lookup_cons_eq (k : String) (m : String × Value) (ms : Members) :
    List.lookup k (m :: ms) = if m.1 = k then some m.2 else ms.lookup k := by
  obtain ⟨k', v⟩ := m
  by_cases h : k' = k
  · subst h
    simp
  · have hne : (k == k') = false := beq_false_of_ne (Ne.symm h)
    simp [List.lookup_cons, hne, h]

/-- What a lookup finds is a member. -/
theorem mem_of_lookup {k : String} {v : Value} {ms : Members}
    (h : ms.lookup k = some v) : (k, v) ∈ ms := by
  obtain ⟨l₁, l₂, rfl, -⟩ := List.lookup_eq_some_iff.mp h
  simp

/-- Reading after setting. -/
theorem lookup_insert (k k' : String) (v : Value) (ms : Members) :
    (insert k v ms).lookup k' = if k = k' then some v else ms.lookup k' := by
  induction ms with
  | nil => simp only [insert, lookup_cons_eq, List.lookup_nil]
  | cons m ms ih =>
      rw [insert]
      split
      · next hm =>
          rw [lookup_cons_eq, lookup_cons_eq, hm]
          split <;> rfl
      · next hm =>
          split
          · rw [lookup_cons_eq]
          · rw [lookup_cons_eq, lookup_cons_eq, ih]
            by_cases hk : k = k'
            · subst hk
              simp [hm]
            · simp [hk]

/-- Every member after an insertion is the new one or was one before. -/
theorem mem_insert {k : String} {v : Value} {ms : Members} {m : String × Value}
    (h : m ∈ insert k v ms) : m = (k, v) ∨ m ∈ ms := by
  induction ms with
  | nil => exact .inl (List.mem_singleton.mp h)
  | cons m' ms ih =>
      rw [insert] at h
      split at h
      · exact (List.mem_cons.mp h).imp_right (List.mem_cons_of_mem _)
      · split at h
        · exact List.mem_cons.mp h
        · rcases List.mem_cons.mp h with rfl | h
          · exact .inr List.mem_cons_self
          · exact (ih h).imp_right (List.mem_cons_of_mem _)

/-- Reading after changing a member. -/
theorem lookup_modify (k k' : String) (f : Value → Value) (ms : Members) :
    (modify k f ms).lookup k' =
      if k = k' then (ms.lookup k').map f else ms.lookup k' := by
  induction ms with
  | nil => simp [modify]
  | cons m ms ih =>
      rw [modify]
      split
      · next hm =>
          rw [lookup_cons_eq, lookup_cons_eq, hm]
          by_cases hk : k = k' <;> simp [hk]
      · next hm =>
          rw [lookup_cons_eq, lookup_cons_eq, ih]
          by_cases hk : k = k'
          · subst hk
            simp [hm]
          · simp [hk]

/-- Changing a member to what it is changes nothing. -/
theorem modify_of_lookup {k : String} {f : Value → Value} {ms : Members}
    (h : ∀ v, ms.lookup k = some v → f v = v) : modify k f ms = ms := by
  induction ms with
  | nil => rfl
  | cons m ms ih =>
      simp only [lookup_cons_eq] at h
      rw [modify]
      split
      · next hm =>
          rw [if_pos hm] at h
          rw [h _ rfl, ← hm]
      · next hm =>
          rw [if_neg hm] at h
          rw [ih h]

/-- Reading after changing every value by its name. -/
theorem lookup_map (g : String → Value → Value) (k : String) (ms : Members) :
    (ms.map fun m => (m.1, g m.1 m.2)).lookup k = (ms.lookup k).map (g k) := by
  induction ms with
  | nil => rfl
  | cons m ms ih =>
      rw [List.map_cons, lookup_cons_eq, lookup_cons_eq]
      split
      · next hm => rw [Option.map_some, ← hm]
      · exact ih

/-- Mapping the values maps what a lookup finds. -/
theorem lookup_mapValues (f : Value → Value) (k : String) (ms : Members) :
    (mapValues f ms).lookup k = (ms.lookup k).map f :=
  lookup_map (fun _ => f) k ms

/-- Reading after removing. -/
theorem lookup_remove (k k' : String) (ms : Members) :
    (remove k ms).lookup k' = if k = k' then none else ms.lookup k' := by
  induction ms with
  | nil => simp [remove]
  | cons m ms ih =>
      rw [remove, List.filter_cons, lookup_cons_eq]
      by_cases hm : m.1 = k
      · rw [if_neg (by simpa using hm), ← remove, ih, hm]
        split <;> rfl
      · rw [if_pos (by simpa using hm), lookup_cons_eq, ← remove, ih]
        by_cases hk : k = k'
        · simp [← hk, hm]
        · simp [hk]

/-- Two removals commute. -/
theorem remove_comm (j k : String) (ms : Members) :
    remove j (remove k ms) = remove k (remove j ms) :=
  List.filter_comm ..

/-- What is set and then removed is as if not set. -/
theorem remove_insert (k : String) (v : Value) (ms : Members) :
    remove k (insert k v ms) = remove k ms := by
  induction ms with
  | nil => simp [remove, insert]
  | cons m ms ih =>
      rw [insert]
      split
      · next hm => simp [remove, hm]
      · split
        · simp [remove]
        · rw [remove, remove, List.filter_cons, List.filter_cons, ← remove, ← remove, ih]

/-- In the order of the keys, setting a member to what it is changes nothing. -/
theorem insert_of_lookup {k : String} {v : Value} {ms : Members}
    (hms : (keys ms).Pairwise (· < ·)) (h : ms.lookup k = some v) : insert k v ms = ms := by
  induction ms with
  | nil => cases h
  | cons m ms ih =>
      obtain ⟨k', v'⟩ := m
      rw [keys, List.map_cons, List.pairwise_cons] at hms
      rw [lookup_cons_eq] at h
      rw [insert]
      by_cases hk : k' = k
      · rw [if_pos hk] at h
        cases h
        rw [if_pos hk, hk]
      · rw [if_neg hk] at h
        have hlt : k' < k := hms.1 k (List.mem_map_of_mem (mem_of_lookup h))
        rw [if_neg hk, if_neg (lt_asymm hlt), ih hms.2 h]

/-- What is set twice has the last value. -/
theorem insert_insert (k : String) (v w : Value) (ms : Members) :
    insert k v (insert k w ms) = insert k v ms := by
  induction ms with
  | nil => simp [insert]
  | cons m ms ih =>
      rw [insert, insert]
      split
      · simp [insert]
      · next hm =>
          split
          · simp [insert]
          · next hlt => rw [insert, if_neg hm, if_neg hlt, ih]

/-- The order in which different members are set does not matter. -/
theorem insert_comm {j k : String} (h : j ≠ k) (v w : Value) (ms : Members) :
    insert j v (insert k w ms) = insert k w (insert j v ms) := by
  induction ms with
  | nil => grind [insert]
  | cons m ms ih => grind [insert]

/-- Mapping the values keeps the names. -/
@[simp] theorem keys_mapValues (f : Value → Value) (ms : Members) :
    keys (mapValues f ms) = keys ms := by
  simp [keys, mapValues]

/-- Setting a member and then changing every value. -/
theorem mapValues_insert (f : Value → Value) (k : String) (v : Value) (ms : Members) :
    mapValues f (insert k v ms) = insert k (f v) (mapValues f ms) := by
  induction ms with
  | nil => rfl
  | cons m ms ih =>
      rw [insert, mapValues, mapValues, List.map_cons, insert]
      split
      · rfl
      · split
        · rfl
        · rw [List.map_cons, ← mapValues, ← mapValues, ih]

/-- Reading an object that is written out: the last member of a name is the one. -/
theorem lookup_members (ms : Members) (k : String) :
    (members ms).lookup k = ms.reverse.lookup k := by
  induction ms using List.reverseRecOn with
  | nil => rfl
  | append_singleton ms m ih =>
      rw [members, List.foldl_append, List.foldl_cons, List.foldl_nil, ← members, lookup_insert,
        ih, List.reverse_append, List.reverse_singleton, List.singleton_append, lookup_cons_eq]

/-! ### Accessors -/

namespace Value

/-- The member of an object, as `Value::get` reads it. -/
def get (v : Value) (k : String) : Option Value :=
  match v with
  | object ms => ms.lookup k
  | _ => none

/-- `get` of an object looks the name up. -/
@[simp] theorem get_object (ms : Members) (k : String) : (object ms).get k = ms.lookup k := rfl

/-- `get` of an object written down finds the last member of the name. -/
theorem get_obj (ms : Members) (k : String) : (obj ms).get k = ms.reverse.lookup k :=
  lookup_members ms k

/-- Indexing with a key: `null` where there is no such member. -/
def index (v : Value) (k : String) : Value :=
  (v.get k).getD null

/-- `Value::is_null`. -/
def isNull : Value → Bool
  | null => true
  | _ => false

/-- `Value::is_object`. -/
def isObject : Value → Bool
  | object _ => true
  | _ => false

/-- `Value::as_str`: the text of a string. -/
def asStr : Value → Option String
  | string s => some s
  | _ => none

/-- `Value::as_bool`: the truth value of a boolean. -/
def asBool : Value → Option Bool
  | bool b => some b
  | _ => none

/-- `Value::as_u64`: the number, where it is an integer that is not negative. -/
def asU64 : Value → Option UInt64
  | number (.posInt n) => some n
  | _ => none

/-- `Value::as_array`: the elements of an array. -/
def asArray : Value → Option (List Value)
  | array vs => some vs
  | _ => none

/-- `Value::as_object`: the members of an object. -/
def asObject : Value → Option Members
  | object ms => some ms
  | _ => none

/-- A member that is there is what indexing gives. -/
theorem index_of_get {v x : Value} {k : String} (h : v.get k = some x) : v.index k = x := by
  rw [index, h, Option.getD_some]

/-- Where indexing gives something but null, the member is there. -/
theorem get_of_index_ne_null {v x : Value} {k : String} (h : v.index k = x) (hx : x ≠ null) :
    v.get k = some x := by
  rw [index] at h
  cases hv : v.get k with
  | none =>
      rw [hv] at h
      exact absurd h.symm hx
  | some y =>
      rw [hv] at h
      exact congrArg some h

/-- Only a string is read as a text. -/
theorem asStr_eq_some {v : Value} {s : String} : v.asStr = some s ↔ v = string s := by
  cases v <;> simp [asStr]

/-- A string under a key. -/
theorem bind_asStr_eq_some {o : Option Value} {s : String} :
    o.bind asStr = some s ↔ o = some (string s) := by
  simp only [Option.bind_eq_some_iff, asStr_eq_some, exists_eq_right]

/-- Only a boolean is read as a truth value. -/
theorem asBool_eq_some {v : Value} {b : Bool} : v.asBool = some b ↔ v = bool b := by
  cases v <;> simp [asBool]

/-- A member that is read as a truth value is a boolean. -/
theorem bind_asBool_eq_some {o : Option Value} {b : Bool} :
    o.bind asBool = some b ↔ o = some (bool b) := by
  simp only [Option.bind_eq_some_iff, asBool_eq_some, exists_eq_right]

/-- Only an array has elements. -/
theorem asArray_eq_some {v : Value} {vs : List Value} : v.asArray = some vs ↔ v = array vs := by
  cases v <;> simp [asArray]

/-- An object has members. -/
theorem isObject_iff {v : Value} : v.isObject = true ↔ ∃ ms, v = object ms := by
  cases v <;> simp [isObject]

/-- Only an object has members. -/
theorem asObject_eq_some {v : Value} {ms : Members} : v.asObject = some ms ↔ v = object ms := by
  cases v <;> simp [asObject]

/-- A member whose members are read is an object. -/
theorem bind_asObject_eq_some {o : Option Value} {ms : Members} :
    o.bind asObject = some ms ↔ o = some (object ms) := by
  simp only [Option.bind_eq_some_iff, asObject_eq_some, exists_eq_right]

/-- A function that keeps the strings, and makes none, leaves a list of strings and makes none. -/
theorem map_eq_strings {f : Value → Value} (hf : ∀ v t, f v = string t ↔ v = string t)
    {vs : List Value} {names : List String} :
    vs.map f = names.map string ↔ vs = names.map string := by
  induction vs generalizing names with
  | nil => simp [eq_comm]
  | cons v vs ih =>
      cases names with
      | nil => simp
      | cons name names => simp [hf, ih]

/-- Every object in a value has its members in the order of their keys, each key once, as a
sorted map keeps them. -/
inductive Ordered : Value → Prop
  | null : Ordered null
  | bool (b : Bool) : Ordered (bool b)
  | number (n : Number) : Ordered (number n)
  | string (s : String) : Ordered (string s)
  | array {vs : List Value} (elements : ∀ v ∈ vs, Ordered v) : Ordered (array vs)
  | object {ms : Members} (order : (keys ms).Pairwise (· < ·)) (values : ∀ m ∈ ms, Ordered m.2) :
      Ordered (object ms)

/-! ### Depth -/

mutual

/-- The nesting depth of a value. -/
def depth : Value → ℕ
  | array vs => depthArray vs + 1
  | object ms => depthMembers ms + 1
  | _ => 0

/-- The depth of the deepest element. -/
def depthArray : List Value → ℕ
  | [] => 0
  | v :: vs => max v.depth (depthArray vs)

/-- The depth of the deepest member. -/
def depthMembers : List (String × Value) → ℕ
  | [] => 0
  | (_, v) :: ms => max v.depth (depthMembers ms)

end

/-- An element is no deeper than the deepest one. -/
theorem depth_le_of_mem {v : Value} {vs : List Value} (h : v ∈ vs) : v.depth ≤ depthArray vs := by
  induction vs with
  | nil => cases h
  | cons w vs ih =>
      rw [depthArray]
      rcases List.mem_cons.mp h with rfl | h
      · exact le_max_left _ _
      · exact (ih h).trans (le_max_right _ _)

/-- A member is no deeper than the deepest one. -/
theorem depth_le_of_mem_members {m : String × Value} {ms : Members} (h : m ∈ ms) :
    m.2.depth ≤ depthMembers ms := by
  induction ms with
  | nil => cases h
  | cons w ms ih =>
      rw [depthMembers]
      rcases List.mem_cons.mp h with rfl | h
      · exact le_max_left _ _
      · exact (ih h).trans (le_max_right _ _)

/-- An array is deeper than its elements. -/
theorem depth_lt_of_mem {v : Value} {vs : List Value} (h : v ∈ vs) : v.depth < (array vs).depth :=
  Nat.lt_succ_of_le (depth_le_of_mem h)

/-- An object is deeper than its members. -/
theorem depth_lt_of_mem_members {m : String × Value} {ms : Members} (h : m ∈ ms) :
    m.2.depth < (object ms).depth :=
  Nat.lt_succ_of_le (depth_le_of_mem_members h)

/-- An object is deeper than what a lookup finds in it. -/
theorem depth_lt_of_lookup {k : String} {v : Value} {ms : Members} (h : ms.lookup k = some v) :
    v.depth < (object ms).depth :=
  depth_lt_of_mem_members (mem_of_lookup h)

/-! ### What is in a value -/

/-- The objects in a value: itself, and those in its members or elements. -/
inductive Inside (ns : Members) : Value → Prop
  | self : Inside ns (object ns)
  | member {ms : Members} {m : String × Value} (hm : m ∈ ms) (hns : Inside ns m.2) :
      Inside ns (object ms)
  | element {vs : List Value} {v : Value} (hv : v ∈ vs) (hns : Inside ns v) : Inside ns (array vs)

/-- Inside an object are its own members and those inside one of them. -/
theorem inside_object_iff {ns ms : Members} :
    Inside ns (object ms) ↔ ns = ms ∨ ∃ m ∈ ms, Inside ns m.2 := by
  constructor
  · intro h
    cases h with
    | self => exact .inl rfl
    | member hm hns => exact .inr ⟨_, hm, hns⟩
  · rintro (rfl | ⟨m, hm, hns⟩)
    · exact .self
    · exact .member hm hns

/-- A string has no members inside. -/
theorem not_inside_string {ns : Members} {s : String} : ¬ Inside ns (string s) :=
  nofun

end Value

end Json
