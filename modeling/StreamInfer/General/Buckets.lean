import Mathlib

/-! Tables filled entry by entry: lists of lists, where an entry is appended to the list
of its key, and maps, where the last entry of a key counts. -/

namespace StreamInfer.General

variable {α κ β : Type*}

/-! ### Lists of lists -/

/-- `none` is a key without a list. -/
def appendAt (xss : List (List α)) (k : ℕ) (x : α) : Option (List (List α)) :=
  match xss[k]? with
  | some xs => some (xss.set k (xs ++ [x]))
  | none => none

def fillBuckets : List (List α) → List (ℕ × α) → Option (List (List α))
  | xss, [] => some xss
  | xss, (k, x) :: ps =>
    match appendAt xss k x with
    | some xss' => fillBuckets xss' ps
    | none => none

/-- The entries of a key, in order. -/
def entriesOf (ps : List (ℕ × α)) (k : ℕ) : List α := (ps.filter (·.1 = k)).map (·.2)

theorem mem_entriesOf {ps : List (ℕ × α)} {k : ℕ} {x : α} : x ∈ entriesOf ps k ↔ (k, x) ∈ ps := by
  simp only [entriesOf, List.mem_map, List.mem_filter, decide_eq_true_eq]
  constructor
  · rintro ⟨⟨k', x'⟩, ⟨h, rfl⟩, rfl⟩
    exact h
  · exact fun h => ⟨(k, x), ⟨h, rfl⟩, rfl⟩

theorem entriesOf_sublist (ps : List (ℕ × α)) (k : ℕ) :
    (entriesOf ps k).Sublist (ps.map (·.2)) := List.filter_sublist.map _

/-- Every list is extended by the entries of its key. -/
theorem fillBuckets_ok {xss : List (List α)} {ps : List (ℕ × α)} (h : ∀ p ∈ ps, p.1 < xss.length) :
    ∃ yss, fillBuckets xss ps = some yss ∧ yss.length = xss.length ∧
      ∀ k, yss.getD k [] = xss.getD k [] ++ if k < xss.length then entriesOf ps k else [] := by
  induction ps generalizing xss with
  | nil => exact ⟨xss, rfl, rfl, fun k => by simp [entriesOf]⟩
  | cons p ps ih =>
    obtain ⟨key, x⟩ := p
    obtain ⟨hkey, hps⟩ := List.forall_mem_cons.mp h
    have hget : xss[key]? = some xss[key] := List.getElem?_eq_getElem hkey
    have hps' : ∀ p ∈ ps, p.1 < (xss.set key (xss[key] ++ [x])).length := by simpa using hps
    obtain ⟨yss, hok, hlen, hall⟩ := ih hps'
    rw [List.length_set] at hlen hall
    refine ⟨yss, ?_, hlen, fun k => ?_⟩
    · rw [fillBuckets, appendAt, hget]
      exact hok
    · rw [hall k]
      by_cases hk : k = key
      · subst hk
        rw [if_pos hkey, if_pos hkey]
        simp [entriesOf, List.getD_eq_getElem?_getD, hkey]
      · have hset : (xss.set key (xss[key] ++ [x])).getD k [] = xss.getD k [] := by
          rw [List.getD_eq_getElem?_getD, List.getD_eq_getElem?_getD,
            List.getElem?_set_ne (Ne.symm hk)]
        have hentries : entriesOf ((key, x) :: ps) k = entriesOf ps k := by
          simp [entriesOf, Ne.symm hk]
        rw [hset, hentries]

/-- Empty lists hold the entries of their key. -/
theorem fillBuckets_replicate {n : ℕ} {ps : List (ℕ × α)} (h : ∀ p ∈ ps, p.1 < n) :
    ∃ yss, fillBuckets (List.replicate n []) ps = some yss ∧ yss.length = n ∧
      ∀ k, yss.getD k [] = entriesOf ps k := by
  have h' : ∀ p ∈ ps, p.1 < (List.replicate n ([] : List α)).length := by simpa using h
  obtain ⟨yss, hok, hlen, hall⟩ := fillBuckets_ok h'
  rw [List.length_replicate] at hlen hall
  refine ⟨yss, hok, hlen, fun k => ?_⟩
  have hnil : (List.replicate n ([] : List α)).getD k [] = [] := by
    rw [List.getD_eq_getElem?_getD, List.getElem?_replicate]
    split_ifs <;> rfl
  rw [hall k, hnil, List.nil_append]
  split_ifs with hk
  · rfl
  · refine (List.eq_nil_iff_forall_not_mem.mpr fun x hx => ?_).symm
    exact hk (h _ (mem_entriesOf.mp hx))

/-! ### Maps -/

variable [DecidableEq κ]

def setKey (d : κ → Option β) (p : κ × β) : κ → Option β := Function.update d p.1 (some p.2)

/-- A map from its entries. -/
def dictOf (ps : List (κ × β)) : κ → Option β := ps.foldl setKey fun _ => none

theorem foldl_setKey_eq {d : κ → Option β} {ps : List (κ × β)} {k : κ} {v : β}
    (hv : ∀ v', (k, v') ∈ ps → v' = v) (h : d k = some v ∨ (k, v) ∈ ps) :
    ps.foldl setKey d k = some v := by
  induction ps generalizing d with
  | nil => simpa using h
  | cons p ps ih =>
    obtain ⟨k', v'⟩ := p
    rw [List.foldl_cons]
    refine ih (fun w hw => hv w (List.mem_cons_of_mem _ hw)) ?_
    by_cases hk : k = k'
    · subst hk
      rw [setKey, Function.update_self, hv v' List.mem_cons_self]
      exact .inl rfl
    · rw [setKey, Function.update_of_ne hk]
      refine h.imp_right fun hmem => ?_
      rcases List.mem_cons.mp hmem with heq | hmem
      · exact absurd (Prod.mk.inj heq).1 hk
      · exact hmem

/-- A key whose entries agree has their value. -/
theorem dictOf_eq {ps : List (κ × β)} {k : κ} {v : β} (hv : ∀ v', (k, v') ∈ ps → v' = v)
    (h : (k, v) ∈ ps) : dictOf ps k = some v := foldl_setKey_eq hv (.inr h)

/-! ### Tables -/

/-- `none` is an entry outside the table. -/
def writeAll : List β → List (ℕ × β) → Option (List β)
  | table, [] => some table
  | table, (k, v) :: ps => if k < table.length then writeAll (table.set k v) ps else none

/-- A key whose entries agree holds their value; the others keep theirs. -/
theorem writeAll_ok {table : List β} {ps : List (ℕ × β)} (h : ∀ p ∈ ps, p.1 < table.length) :
    ∃ table', writeAll table ps = some table' ∧ table'.length = table.length ∧
      ∀ k v, (∀ v', (k, v') ∈ ps → v' = v) → table[k]? = some v ∨ (k, v) ∈ ps →
        table'[k]? = some v := by
  induction ps generalizing table with
  | nil => exact ⟨table, rfl, rfl, fun k v _ hk => by simpa using hk⟩
  | cons p ps ih =>
    obtain ⟨key, x⟩ := p
    obtain ⟨hkey, hps⟩ := List.forall_mem_cons.mp h
    have hps' : ∀ p ∈ ps, p.1 < (table.set key x).length := by simpa using hps
    obtain ⟨table', hok, hlen, hall⟩ := ih hps'
    refine ⟨table', ?_, hlen.trans List.length_set, fun k v hv hk => ?_⟩
    · rw [writeAll, if_pos hkey]
      exact hok
    · refine hall k v (fun w hw => hv w (List.mem_cons_of_mem _ hw)) ?_
      by_cases hkk : k = key
      · subst hkk
        rw [List.getElem?_set_self hkey, hv x List.mem_cons_self]
        exact .inl rfl
      · rw [List.getElem?_set_ne (Ne.symm hkk)]
        refine hk.imp_right fun hmem => ?_
        rcases List.mem_cons.mp hmem with heq | hmem
        · exact absurd (Prod.mk.inj heq).1 hkk
        · exact hmem

end StreamInfer.General
