import Mathlib.Data.Int.Notation
import Mathlib.Data.List.Nodup

namespace Serde

/-!
# JSON values and what a derived `Deserialize` accepts of them

`Value` is JSON as a reader sees it: an object keeps its members in order, duplicates
included.  The readers follow the code that serde derives: a struct is read from an object
(unknown members are ignored, a duplicate or missing member is an error) or from an array of
exactly its fields; an internally tagged enum carries its variant in a member of the object,
an externally tagged one is a string or an object of one member.

Each reader is a partial function; `readAll_map` and `structFields_obj` say that what was
written as such a value is read back.
-/

/-- A JSON value.  A number is an integer or, left as its text, anything else. -/
inductive Value
  | null
  | bool (b : Bool)
  | int (n : ℤ)
  | float (text : String)
  | str (s : String)
  | arr (items : List Value)
  | obj (members : List (String × Value))

namespace Value

/-! ### Scalars -/

/-- `String`. -/
def asStr : Value → Option String
  | str s => some s
  | _ => none

/-- An unsigned integer type with values below `bound`. -/
def asUnsigned (bound : ℕ) : Value → Option ℕ
  | int n => if 0 ≤ n ∧ n < bound then some n.toNat else none
  | _ => none

@[simp] theorem asStr_str (s : String) : (str s).asStr = some s := rfl

theorem asUnsigned_int {bound n : ℕ} (h : n < bound) :
    (int n).asUnsigned bound = some n := by
  have hin : (0 : ℤ) ≤ n ∧ (n : ℤ) < bound := ⟨Int.natCast_nonneg n, Int.ofNat_lt.mpr h⟩
  rw [asUnsigned, if_pos hin, Int.toNat_natCast]

/-! ### Sequences -/

/-- A sequence of values of one type. -/
def readAll {α : Type} (read : Value → Option α) : Value → Option (List α)
  | arr items => items.mapM read
  | _ => none

/-- A sequence written item by item is read back, if each item of it is. -/
theorem readAll_map_of_mem {α : Type} {read : Value → Option α} {write : α → Value} {l : List α}
    (h : ∀ a ∈ l, read (write a) = some a) : (arr (l.map write)).readAll read = some l := by
  show (l.map write).mapM read = some l
  induction l with
  | nil => rfl
  | cons a l ih =>
    have hrest := ih fun b hb => h b (List.mem_cons_of_mem a hb)
    rw [List.map_cons, List.mapM_cons, h a List.mem_cons_self, hrest]
    rfl

theorem readAll_map {α : Type} {read : Value → Option α} {write : α → Value}
    (h : ∀ a, read (write a) = some a) (l : List α) :
    (arr (l.map write)).readAll read = some l :=
  readAll_map_of_mem fun a _ => h a

/-! ### Structs -/

/-- The value of the only member with that name. -/
def member (name : String) (members : List (String × Value)) : Option Value :=
  match members.filter (fun m => m.1 = name) with
  | [m] => some m.2
  | _ => none

/-- The fields of a struct, in the order of `names`. -/
def structFields (names : List String) : Value → Option (List Value)
  | obj members => names.mapM (fun name => member name members)
  | arr items => if items.length = names.length then some items else none
  | _ => none

/-- Members under other names do not matter. -/
theorem member_append_of_notMem {name : String} {pre : List (String × Value)}
    (h : name ∉ pre.map Prod.fst) (members : List (String × Value)) :
    member name (pre ++ members) = member name members := by
  have hpre : pre.filter (fun m => m.1 = name) = [] := by
    refine List.filter_eq_nil_iff.mpr (fun m hm hname => h ?_)
    exact List.mem_map.mpr ⟨m, hm, by simpa using hname⟩
  rw [member, List.filter_append, hpre, List.nil_append, member]

/-- The first of the members with distinct names. -/
theorem member_cons_self {name : String} {v : Value} {rest : List (String × Value)}
    (h : name ∉ rest.map Prod.fst) : member name ((name, v) :: rest) = some v := by
  have hrest : rest.filter (fun m => m.1 = name) = [] := by
    refine List.filter_eq_nil_iff.mpr (fun m hm hname => h ?_)
    exact List.mem_map.mpr ⟨m, hm, by simpa using hname⟩
  rw [member, List.filter_cons_of_pos (by simp), hrest]

/-- A struct written as its named fields is read back, whatever stands before them under
    other names. -/
theorem structFields_append {pre members : List (String × Value)}
    (h : ((pre ++ members).map Prod.fst).Nodup) :
    structFields (members.map Prod.fst) (obj (pre ++ members)) = some (members.map Prod.snd) := by
  show (members.map Prod.fst).mapM (fun name => member name (pre ++ members)) = _
  induction members generalizing pre with
  | nil => rfl
  | cons m members ih =>
    rw [List.map_append, List.map_cons] at h
    have hdisj := List.nodup_append.mp h
    have hm : m.1 ∉ pre.map Prod.fst := by
      intro hmem
      exact hdisj.2.2 m.1 hmem m.1 List.mem_cons_self rfl
    have hfirst : member m.1 (pre ++ m :: members) = some m.2 := by
      rw [member_append_of_notMem hm]
      exact member_cons_self (List.nodup_cons.mp hdisj.2.1).1
    have hrest : (members.map Prod.fst).mapM (fun name => member name ((pre ++ [m]) ++ members)) =
        some (members.map Prod.snd) :=
      ih (by simpa using h)
    rw [List.append_assoc, List.singleton_append] at hrest
    rw [List.map_cons, List.mapM_cons, hfirst, hrest]
    rfl

/-- A struct written as its named fields is read back. -/
theorem structFields_obj {members : List (String × Value)} (h : (members.map Prod.fst).Nodup) :
    structFields (members.map Prod.fst) (obj members) = some (members.map Prod.snd) :=
  @structFields_append [] members h

@[simp] theorem structFields_nil : structFields [] (obj []) = some [] := rfl

@[simp] theorem structFields_one (name : String) (v : Value) :
    structFields [name] (obj [(name, v)]) = some [v] :=
  @structFields_obj [(name, v)] (by simp)

theorem structFields_two {name name' : String} (h : name ≠ name') (v v' : Value) :
    structFields [name, name'] (obj [(name, v), (name', v')]) = some [v, v'] :=
  @structFields_obj [(name, v), (name', v')] (by simp [h])

/-- `Value::get`, on a parsed value: of members with one name the map has the last. -/
def get (name : String) : Value → Option Value
  | obj members => members.reverse.lookup name
  | _ => none

/-- `get(name).and_then(as_str)`. -/
def getStr (name : String) (v : Value) : Option String := (get name v).bind asStr

/-! ### Fields that may be missing -/

/-- `Option<T>`: a null is none. -/
def optionOf {α : Type} (read : Value → Option α) : Value → Option (Option α)
  | null => some none
  | v => (read v).map some

/-- A member that may be missing: `#[serde(default)]`, or an `Option`. -/
def memberOr {α : Type} (absent : α) (read : Value → Option α) (name : String)
    (members : List (String × Value)) : Option α :=
  match members.filter (fun m => m.1 = name) with
  | [] => some absent
  | [m] => read m.2
  | _ => none

/-- `#[serde(skip_serializing_if = "Option::is_none")]`. -/
def someMember (name : String) : Option Value → List (String × Value)
  | none => []
  | some v => [(name, v)]

@[simp] theorem filter_someMember (name name' : String) (o : Option Value) :
    (someMember name o).filter (fun m => m.1 = name') =
      if name = name' then someMember name o else [] := by
  cases o with
  | none => simp [someMember]
  | some v => by_cases h : name = name' <;> simp [someMember, h]

/-- A value that is not null is read as a value. -/
theorem optionOf_some {α : Type} {read : Value → Option α} {v : Value} {a : α} (hnull : v ≠ null)
    (h : read v = some a) : optionOf read v = some (some a) := by
  cases v with
  | null => exact absurd rfl hnull
  | _ => simp [optionOf, h]

/-- A field that was written unless it is none is read back. -/
theorem memberOr_someMember {α : Type} {read : Value → Option α} {write : α → Value}
    {name : String} {members : List (String × Value)} {o : Option α}
    (hmember : members.filter (fun m => m.1 = name) = someMember name (o.map write))
    (hread : ∀ a, o = some a → write a ≠ null ∧ read (write a) = some a) :
    memberOr none (optionOf read) name members = some o := by
  rw [memberOr, hmember]
  cases o with
  | none => rfl
  | some a =>
    obtain ⟨hnull, hback⟩ := hread a rfl
    exact optionOf_some hnull hback

/-! ### Enums -/

/-- `#[serde(tag = "..")]`: the variant's name, and what is left for its fields. -/
def internalTag (tag : String) : Value → Option (String × Value)
  | obj members =>
    (member tag members).bind fun v => v.asStr.map fun name =>
      (name, obj (members.filter (fun m => m.1 ≠ tag)))
  | arr (v :: items) => v.asStr.map fun name => (name, arr items)
  | _ => none

/-- No `tag` attribute: a variant by name alone, or with its content. -/
def externalTag : Value → Option (String × Option Value)
  | str name => some (name, none)
  | obj [(name, content)] => some (name, some content)
  | _ => none

/-- The content of a variant without fields. -/
def unitVariant : Option Value → Option Unit
  | none => some ()
  | some null => some ()
  | some (obj []) => some ()
  | _ => none

/-- The content of a variant with named fields. -/
def structVariant (names : List String) : Option Value → Option (List Value)
  | none => none
  | some content => structFields names content

/-- A variant written as its tag and its fields is read back. -/
theorem internalTag_obj {tag name : String} {members : List (String × Value)}
    (h : tag ∉ members.map Prod.fst) :
    internalTag tag (obj ((tag, str name) :: members)) = some (name, obj members) := by
  have hkeep : members.filter (fun m => m.1 ≠ tag) = members := by
    refine List.filter_eq_self.mpr (fun m hm => ?_)
    simp only [decide_eq_true_eq]
    rintro rfl
    exact h (List.mem_map_of_mem hm)
  simp only [internalTag, member_cons_self h, Option.bind_some, asStr_str, Option.map_some]
  rw [List.filter_cons_of_neg (by simp), hkeep]

end Value

end Serde
