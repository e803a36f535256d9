import Mathlib.Data.List.Sort
import Std.Data.TreeMap.Lemmas

set_option autoImplicit false

/-!
# Maps in key order

A list sorted strictly by a key is determined by its members. Two uses: the
entries of a tree map after an insertion, and a sort by a key.
-/
namespace Wiremux.OrderedMap

variable {α β : Type*}

def StrictBy (key : α → ℕ) (l : List α) : Prop := l.Pairwise fun a b => key a < key b

theorem StrictBy.nodup {key : α → ℕ} {l : List α} (h : StrictBy key l) : l.Nodup :=
  h.imp fun hlt heq => by
    subst heq
    exact Nat.lt_irrefl _ hlt

theorem StrictBy.key_inj {key : α → ℕ} {l : List α} (h : StrictBy key l) {a b : α}
    (ha : a ∈ l) (hb : b ∈ l) (hkey : key a = key b) : a = b := by
  induction l with
  | nil => simp at ha
  | cons x l ih =>
    obtain ⟨hx, hl⟩ := List.pairwise_cons.mp h
    rcases List.mem_cons.mp ha with hax | hal <;> rcases List.mem_cons.mp hb with hbx | hbl
    · exact hax.trans hbx.symm
    · exact absurd hkey (Nat.ne_of_lt (hax ▸ hx b hbl))
    · exact absurd hkey.symm (Nat.ne_of_lt (hbx ▸ hx a hal))
    · exact ih hl hal hbl

theorem StrictBy.ext {key : α → ℕ} {l₁ l₂ : List α} (h₁ : StrictBy key l₁)
    (h₂ : StrictBy key l₂) (hmem : ∀ x, x ∈ l₁ ↔ x ∈ l₂) : l₁ = l₂ := by
  have hperm : l₁.Perm l₂ := (List.perm_ext_iff_of_nodup h₁.nodup h₂.nodup).mpr hmem
  refine hperm.eq_of_pairwise ?_ h₁ h₂
  intro a b _ _ hab hba
  omega

theorem StrictBy.append_singleton {key : α → ℕ} {l : List α} {x : α} (h : StrictBy key l)
    (hx : ∀ a ∈ l, key a < key x) : StrictBy key (l ++ [x]) := by
  refine List.pairwise_append.mpr ⟨h, List.pairwise_singleton _ _, ?_⟩
  intro a ha b hb
  obtain rfl : b = x := by simpa using hb
  exact hx a ha

theorem StrictBy.map {key : α → ℕ} {l : List α} (h : StrictBy key l) {f : α → α}
    (hf : ∀ a ∈ l, key (f a) = key a) : StrictBy key (l.map f) := by
  refine List.pairwise_map.mpr (List.Pairwise.imp_of_mem ?_ h)
  intro a b ha hb hlt
  rw [hf a ha, hf b hb]
  exact hlt

theorem strictBy_toList (t : Std.TreeMap ℕ β) : StrictBy Prod.fst t.toList :=
  t.ordered_keys_toList.imp fun h => Nat.compare_eq_lt.mp h

theorem getElem?_insert (t : Std.TreeMap ℕ β) (k a : ℕ) (v : β) :
    (t.insert k v)[a]? = if k = a then some v else t[a]? := by
  rw [Std.TreeMap.getElem?_insert]
  simp only [Nat.compare_eq_eq]

end Wiremux.OrderedMap
