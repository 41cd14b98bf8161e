import Mathlib.Data.List.Nodup
import Mathlib.Logic.Function.Basic

/-!
# Tables and their listings

A table has a row for each key, and in a row at most one entry under each name.

* `Table.set`: change one entry;
* `Listing`: a list has the entries of a row, each once;
* `Listing.perm`: the row determines the list but for its order;
* `Listing.put`, `Listing.remove`: what a change of an entry does to the list.
-/

variable {κ ι ν : Type*}

/-- For each key a row, which has at most one entry under each name. -/
def Table (κ ι ν : Type*) := κ → ι → Option ν

namespace Table

variable [DecidableEq κ] [DecidableEq ι]

/-- Set what a row has under a name. -/
def set (table : Table κ ι ν) (key : κ) (name : ι) (entry : Option ν) : Table κ ι ν :=
  Function.update table key (Function.update (table key) name entry)

theorem set_self (table : Table κ ι ν) (key : κ) (name : ι) (entry : Option ν) :
    table.set key name entry key = Function.update (table key) name entry :=
  Function.update_self _ _ _

theorem set_of_ne (table : Table κ ι ν) {key key' : κ} (name : ι) (entry : Option ν)
    (h : key' ≠ key) : table.set key name entry key' = table key' :=
  Function.update_of_ne h _ _

end Table

/-- The list has the entries of the row, each once; `name` is the name an entry stands under. -/
structure Listing (name : ν → ι) (row : ι → Option ν) (entries : List ν) : Prop where
  nodup : (entries.map name).Nodup
  mem : ∀ entry, entry ∈ entries ↔ row (name entry) = some entry

namespace Listing

variable {name : ν → ι} {row : ι → Option ν} {entries entries' : List ν}

/-- The row determines the list but for its order. -/
theorem perm (h : Listing name row entries) (h' : Listing name row entries') :
    entries.Perm entries' := by
  have hn : entries.Nodup := List.Nodup.of_map name h.nodup
  have hn' : entries'.Nodup := List.Nodup.of_map name h'.nodup
  rw [List.perm_ext_iff_of_nodup hn hn']
  intro entry
  rw [h.mem, h'.mem]

/-- The order does not matter. -/
theorem of_perm (h : Listing name row entries) (hp : entries'.Perm entries) :
    Listing name row entries' where
  nodup := (hp.map name).nodup_iff.2 h.nodup
  mem entry := hp.mem_iff.trans (h.mem entry)

variable [DecidableEq ι]

theorem nodup_filter (h : Listing name row entries) (i : ι) :
    ((entries.filter fun e => name e ≠ i).map name).Nodup :=
  h.nodup.sublist (List.filter_sublist.map name)

/-- Without an entry. -/
theorem remove (h : Listing name row entries) (i : ι) :
    Listing name (Function.update row i none) (entries.filter fun e => name e ≠ i) := by
  refine ⟨h.nodup_filter i, fun e => ?_⟩
  rw [List.mem_filter, h.mem, decide_eq_true_eq]
  by_cases hi : name e = i
  · subst hi
    rw [Function.update_self]
    simp
  · rw [Function.update_of_ne hi]
    exact and_iff_left hi

/-- With an entry, in the place of the one that was there. -/
theorem put (h : Listing name row entries) (entry : ν) :
    Listing name (Function.update row (name entry) (some entry))
      (entry :: entries.filter fun e => name e ≠ name entry) := by
  constructor
  · rw [List.map_cons, List.nodup_cons]
    refine ⟨fun hmem => ?_, h.nodup_filter _⟩
    obtain ⟨e, he, hname⟩ := List.mem_map.1 hmem
    exact of_decide_eq_true (List.mem_filter.1 he).2 hname
  · intro e
    rw [List.mem_cons, List.mem_filter, h.mem, decide_eq_true_eq]
    by_cases hi : name e = name entry
    · rw [hi, Function.update_self, Option.some_inj]
      constructor
      · rintro (rfl | ⟨-, hne⟩)
        · rfl
        · exact absurd rfl hne
      · exact fun he => .inl he.symm
    · rw [Function.update_of_ne hi]
      constructor
      · rintro (rfl | ⟨he, -⟩)
        · exact absurd rfl hi
        · exact he
      · exact fun he => .inr ⟨he, hi⟩

end Listing
