/-
Sessions with a registry.

A session starts from the empty registry or from the functions that come with the language, and registers functions one
after the other. What it leaves is a finite map in which the last registration of a name counts (`get?_session`), and every
registration hands back what the name stood for up to then (`answers_session`); both follow from what one registration
does (`get?_replace`), since the functions that come with the language have been registered in the same way.

The names of a registry are sorted by their characters, and none is there twice (`names_increasing`). This is the order of
their UTF-8 bytes (`bytes_lt`): where two texts differ first, so do their bytes, and the larger character has the larger
byte at the first place where its bytes differ. `session_map`: look-ups, answers and the list of names are views of one
finite map, after any session.
-/
import Mathlib.Tactic
import Mathlib.Data.String.Basic
import Formula.Proofs.Functions

namespace Formula

/-! ## Byte order -/

/-- the UTF-8 bytes of a text -/
def bytes (s : String) : List UInt8 := s.toUTF8.data.toList

theorem bytes_eq (s : String) : bytes s = s.toList.flatMap String.utf8EncodeChar := by
  have hencode : s.toUTF8 = s.toList.utf8Encode := by
    rw [String.toUTF8_eq_toByteArray, ← String.toByteArray_ofList, String.ofList_toList]
  rw [bytes, hencode, List.utf8Encode, List.toList_data_toByteArray]

/-- bytes are compared from the left -/
theorem cons_byte_lt {a b : Nat} {us vs : List UInt8} (hb : b < 256) (hle : a ≤ b) (hrest : a = b → us < vs) :
    UInt8.ofNat a :: us < UInt8.ofNat b :: vs := by
  rw [List.cons_lt_cons_iff]
  rcases hle.lt_or_eq with hlt | heq
  · left
    rw [UInt8.lt_iff_toNat_lt, UInt8.toNat_ofNat_of_lt' (hlt.trans hb), UInt8.toNat_ofNat_of_lt' hb]
    exact hlt
  · exact .inr ⟨by rw [heq], hrest heq⟩

/-- the bytes of a smaller character are smaller, whatever follows them: the first byte grows with the number of bytes, and
with as many bytes the digits to base 64 are compared one by one -/
theorem utf8EncodeChar_lt {c d : Char} (h : c < d) (us vs : List UInt8) :
    String.utf8EncodeChar c ++ us < String.utf8EncodeChar d ++ vs := by
  have hlt : c.val.toNat < d.val.toNat := h
  have hmax : d.val.toNat < 1114112 := by
    rcases d.valid with hd | hd
    · exact hd.trans (by decide)
    · exact hd.2
  simp only [String.utf8EncodeChar]
  generalize c.val.toNat = m at hlt ⊢
  generalize d.val.toNat = n at hlt hmax ⊢
  split_ifs
  all_goals
    repeat refine cons_byte_lt (by omega) (by omega) fun _ => ?_
    omega

theorem flatMap_utf8EncodeChar_lt {cs ds : List Char} (h : cs < ds) :
    cs.flatMap String.utf8EncodeChar < ds.flatMap String.utf8EncodeChar := by
  induction h with
  | @nil d ds =>
    obtain ⟨b, bs, hbytes⟩ := List.exists_cons_of_ne_nil (String.utf8EncodeChar_ne_nil (c := d))
    rw [List.flatMap_nil, List.flatMap_cons, hbytes]
    exact .nil
  | @cons c cs ds _ ih =>
    rw [List.flatMap_cons, List.flatMap_cons]
    exact List.append_left_lt ih
  | @rel c cs d ds h =>
    rw [List.flatMap_cons, List.flatMap_cons]
    exact utf8EncodeChar_lt h _ _

/-- **Texts in increasing order have increasing bytes** -/
theorem bytes_lt {s t : String} (h : s < t) : bytes s < bytes t := by
  rw [bytes_eq, bytes_eq]
  exact flatMap_utf8EncodeChar_lt (String.lt_iff_toList_lt.1 h)

/-! ## One registry -/

namespace Registry

theorem contains_iff (r : Registry) (name : String) : r.contains name = true ↔ ∃ f, r.get? name = some f := by
  rw [contains, Std.TreeMap.contains_eq_isSome_getElem?, Option.isSome_iff_exists]
  rfl

theorem mem_names_iff (r : Registry) (name : String) : name ∈ r.names ↔ r.contains name = true := by
  rw [names, List.mem_mergeSort, Std.TreeMap.mem_keys, Std.TreeMap.mem_iff_contains]
  rfl

theorem names_nodup (r : Registry) : r.names.Nodup := (List.mergeSort_perm _ _).nodup_iff.2 Std.TreeMap.nodup_keys

/-- of the keys it is used only that no two are equal; their order is due to the sort -/
theorem names_increasing (r : Registry) : r.names.Pairwise fun s t => bytes s < bytes t := by
  have hsorted : r.names.Pairwise fun s t => decide (s ≤ t) = true := by
    apply List.pairwise_mergeSort
    · intro s t u hst htu
      exact decide_eq_true (String.le_trans (of_decide_eq_true hst) (of_decide_eq_true htu))
    · intro s t
      simpa using String.le_total s t
  refine hsorted.imp₂ (fun s t hle hne => ?_) r.names_nodup
  exact bytes_lt (lt_of_le_of_ne (of_decide_eq_true hle) hne)

/-! ## Sessions -/

/-- the answers to a number of registrations, one after the other, and the registry that they leave -/
def session (r : Registry) : List (String × Implementation) → List (Option Implementation) × Registry
  | [] => ([], r)
  | (name, f) :: calls =>
    let replaced := r.replace name f
    let rest := session replaced.2 calls
    (replaced.1 :: rest.1, rest.2)

/-- the function that the last call for `name` registers -/
def latest (calls : List (String × Implementation)) (name : String) : Option Implementation := calls.reverse.lookup name

theorem latest_cons (call : String × Implementation) (calls : List (String × Implementation)) (name : String) :
    latest (call :: calls) name = (latest calls name).or (if call.1 = name then some call.2 else none) := by
  rw [latest, List.reverse_cons, List.lookup_append]
  congr 1
  by_cases hname : call.1 = name
  · rw [if_pos hname, ← hname]
    exact List.lookup_cons_self
  · rw [if_neg hname]
    simpa using Ne.symm hname

/-- a registration counts unless a later one is for the same name -/
theorem get?_replace (r : Registry) (call : String × Implementation) (calls : List (String × Implementation))
    (name : String) :
    (latest calls name).or ((r.replace call.1 call.2).2.get? name) = (latest (call :: calls) name).or (r.get? name) := by
  rw [latest_cons, Option.or_assoc, replace, get?_register]
  split_ifs <;> rfl

/-- **After a session the last registration of a name counts** -/
theorem get?_session (r : Registry) (calls : List (String × Implementation)) (name : String) :
    (r.session calls).2.get? name = (latest calls name).or (r.get? name) := by
  induction calls generalizing r with
  | nil => rfl
  | cons call calls ih => rw [session, ih, get?_replace]

/-- **Each registration hands back what was registered before it** -/
theorem answers_session (r : Registry) (calls : List (String × Implementation)) :
    (r.session calls).1 = calls.mapIdx fun i call => (latest (calls.take i) call.1).or (r.get? call.1) := by
  induction calls generalizing r with
  | nil => rfl
  | cons call calls ih =>
    rw [session, List.mapIdx_cons, ih]
    simp only [List.take_succ_cons, get?_replace]
    rfl

/-! ## Where a session starts -/

/-- the registries that a session may start from -/
inductive Origin where
  | empty
  | builtin
deriving DecidableEq, Repr

namespace Origin

def registry : Origin → Registry
  | .empty => .empty
  | .builtin => .builtin

/-- the functions that are there at the start, by name -/
def entries : Origin → List (String × Implementation)
  | .empty => []
  | .builtin => [("ABS", Builtin.abs), ("CHR", Builtin.chr), ("CONCAT", Builtin.concat), ("LTRIM", Builtin.ltrim),
      ("RTRIM", Builtin.rtrim)]

/-- what `name` stands for after the calls: the function of the last call for it, or else the one that was there at the
start -/
def registered (o : Origin) (calls : List (String × Implementation)) (name : String) : Option Implementation :=
  (latest calls name).or (latest o.entries name)

theorem get?_registry (o : Origin) (name : String) : o.registry.get? name = latest o.entries name := by
  have hsession : o.registry = (Registry.empty.session o.entries).2 := by cases o <;> rfl
  have hempty : Registry.empty.get? name = none := by simp [get?, Registry.empty]
  rw [hsession, get?_session, hempty, Option.or_none]

end Origin

/-- **A registry is a finite map.** After any number of registrations, from the empty registry or from the functions that
come with the language, a name stands for the function that was last registered for it, and if there is none for the one
from the start; it is contained if it stands for anything. The answer to each registration is what its name stood for after
the calls before it. The names are listed in strictly increasing order of their UTF-8 bytes, and they are those that are
contained, each once. -/
theorem session_map (o : Origin) (calls : List (String × Implementation)) :
    (∀ name, (o.registry.session calls).2.get? name = o.registered calls name) ∧
      (∀ name, (o.registry.session calls).2.contains name = true ↔
        ∃ f, (o.registry.session calls).2.get? name = some f) ∧
      (o.registry.session calls).1 = calls.mapIdx (fun i call => o.registered (calls.take i) call.1) ∧
      (o.registry.session calls).2.names.Pairwise (fun s t => bytes s < bytes t) ∧
      (∀ name, name ∈ (o.registry.session calls).2.names ↔ (o.registry.session calls).2.contains name = true) ∧
      (o.registry.session calls).2.names.Nodup := by
  refine ⟨?_, contains_iff _, ?_, names_increasing _, mem_names_iff _, names_nodup _⟩
  · intro name
    rw [get?_session, o.get?_registry, Origin.registered]
  · rw [answers_session]
    simp only [o.get?_registry, Origin.registered]

/-- a name is replaced, and one that is not ASCII comes last -/
example :
    (builtin.session [("é", Builtin.chr), ("ABS", Builtin.rtrim)]).1 = [none, some Builtin.abs] ∧
      (builtin.session [("é", Builtin.chr), ("ABS", Builtin.rtrim)]).2.names =
        ["ABS", "CHR", "CONCAT", "LTRIM", "RTRIM", "é"] :=
  ⟨rfl, by cbv⟩

end Registry

end Formula
