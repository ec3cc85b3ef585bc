import Mathlib.Data.List.AList

/-!
# Tables

Association lists with one type of values, the changes that a loop over the entries makes,
and what they do to `lookup`.
-/

abbrev Table (κ ν : Type) := AList fun _ : κ => ν

namespace Table

variable {κ ν : Type}

def mapVal (f : κ → ν → ν) (t : Table κ ν) : Table κ ν :=
  ⟨t.entries.map (Sigma.map id f), t.nodupKeys.map₂ f _⟩

def filter (p : κ → ν → Bool) (t : Table κ ν) : Table κ ν :=
  ⟨t.entries.filter fun e => p e.1 e.2, t.nodupKeys.sublist List.filter_sublist⟩

theorem mapVal_mapVal (f g : κ → ν → ν) (t : Table κ ν) :
    (t.mapVal g).mapVal f = t.mapVal fun a v => f a (g a v) := by
  apply AList.ext
  simp [mapVal, Sigma.map, Function.comp_def]

theorem filter_filter (p q : κ → ν → Bool) (t : Table κ ν) :
    (t.filter q).filter p = t.filter fun a v => p a v && q a v := by
  apply AList.ext
  simp [filter]

theorem filter_congr {p q : κ → ν → Bool} {t : Table κ ν}
    (h : ∀ e ∈ t.entries, p e.1 e.2 = q e.1 e.2) : t.filter p = t.filter q := by
  apply AList.ext
  exact List.filter_congr h

@[simp] theorem keys_mapVal (f : κ → ν → ν) (t : Table κ ν) : (t.mapVal f).keys = t.keys := by
  simp [AList.keys, List.keys, mapVal, Function.comp_def, Sigma.map]

variable [DecidableEq κ]

/-- Changes the value of one key, if it is there. -/
def modify (k : κ) (f : ν → ν) (t : Table κ ν) : Table κ ν :=
  t.mapVal fun a v => if a = k then f v else v

@[simp] theorem lookup_mapVal (f : κ → ν → ν) (t : Table κ ν) (a : κ) :
    (t.mapVal f).lookup a = (t.lookup a).map (f a) :=
  List.dlookup_map₂ a

theorem modify_modify (k : κ) (f g : ν → ν) (t : Table κ ν) :
    (t.modify k g).modify k f = t.modify k (f ∘ g) := by
  rw [modify, modify, mapVal_mapVal]
  congr 1
  funext a v
  by_cases h : a = k <;> simp [h]

@[simp] theorem keys_modify (k : κ) (f : ν → ν) (t : Table κ ν) : (t.modify k f).keys = t.keys :=
  keys_mapVal _ t

theorem lookup_modify (k : κ) (f : ν → ν) (t : Table κ ν) (a : κ) :
    (t.modify k f).lookup a = if a = k then (t.lookup a).map f else t.lookup a := by
  unfold modify
  rw [lookup_mapVal]
  split
  · rfl
  · simp

@[simp] theorem lookup_modify_self (k : κ) (f : ν → ν) (t : Table κ ν) :
    (t.modify k f).lookup k = (t.lookup k).map f := by
  simp [lookup_modify]

/-- Where an entry of a changed table comes from. -/
theorem of_lookup_modify {k a : κ} {f : ν → ν} {t : Table κ ν} {v' : ν}
    (h : (t.modify k f).lookup a = some v') : ∃ v, t.lookup a = some v ∧ (a = k ∧ v' = f v ∨ v' = v) := by
  rw [lookup_modify] at h
  split at h
  · rename_i ha
    obtain ⟨v, hv, rfl⟩ := Option.map_eq_some_iff.mp h
    exact ⟨v, hv, .inl ⟨ha, rfl⟩⟩
  · exact ⟨v', h, .inr rfl⟩

theorem lookup_insert_eq (k : κ) (v : ν) (t : Table κ ν) (a : κ) :
    (t.insert k v).lookup a = if a = k then some v else t.lookup a := by
  split
  · rename_i h
    rw [h, AList.lookup_insert]
  · rename_i h
    exact AList.lookup_insert_ne h

theorem lookup_eq_some {t : Table κ ν} {a : κ} {v : ν} :
    t.lookup a = some v ↔ ⟨a, v⟩ ∈ t.entries :=
  AList.mem_lookup_iff

@[simp] theorem lookup_filter (p : κ → ν → Bool) (t : Table κ ν) (a : κ) :
    (t.filter p).lookup a = (t.lookup a).filter (p a) := by
  ext v
  rw [lookup_eq_some, Option.filter_eq_some_iff, lookup_eq_some]
  simp [filter]

theorem modify_congr {t : Table κ ν} {k : κ} {f g : ν → ν}
    (h : ∀ v, t.lookup k = some v → f v = g v) : t.modify k f = t.modify k g := by
  apply AList.ext
  apply List.map_congr_left
  intro e he
  obtain ⟨a, v⟩ := e
  by_cases ha : a = k
  · subst ha
    simp [Sigma.map, h v (lookup_eq_some.mpr he)]
  · simp [Sigma.map, ha]

theorem modify_eq_self {t : Table κ ν} {k : κ} {f : ν → ν} (h : ∀ v, t.lookup k = some v → f v = v) :
    t.modify k f = t := by
  rw [modify_congr (g := id) h]
  apply AList.ext
  simp only [modify, mapVal, id_eq, ite_self]
  exact List.map_id _

/-! ## Loops over the entries -/

theorem erase_eq_filter (k : κ) (t : Table κ ν) : t.erase k = t.filter fun a _ => a ≠ k := by
  apply AList.ext
  change (t.entries.eraseP fun e => decide (k = e.1)) = t.entries.filter fun e => e.1 ≠ k
  have hnd := t.nodupKeys
  generalize t.entries = es at hnd
  induction es with
  | nil => rfl
  | cons e es ih =>
    rw [List.nodupKeys_cons] at hnd
    by_cases hk : e.1 = k
    · subst hk
      have hall : es.filter (fun e' => decide (e'.1 ≠ e.1)) = es := by
        rw [List.filter_eq_self]
        intro e' he'
        have hne : e'.1 ≠ e.1 := fun heq => hnd.1 (heq ▸ List.mem_keys_of_mem he')
        simpa using hne
      rw [List.eraseP_cons_of_pos (by simp), List.filter_cons_of_neg (by simp), hall]
    · rw [List.eraseP_cons_of_neg (by simpa using Ne.symm hk),
        List.filter_cons_of_pos (by simpa using hk), ih hnd.2]

/-- A loop that erases the entries which it finds to satisfy `p`. -/
theorem foldl_erase (p : (Sigma fun _ : κ => ν) → Bool) (es : List (Sigma fun _ : κ => ν))
    (t : Table κ ν) :
    es.foldl (fun t e => if p e then t.erase e.1 else t) t =
      t.filter fun a _ => a ∉ (es.filter p).map (·.1) := by
  induction es generalizing t with
  | nil =>
    apply AList.ext
    simp [filter]
  | cons e es ih =>
    rw [List.foldl_cons, ih]
    by_cases h : p e
    · rw [if_pos h, erase_eq_filter, filter_filter, List.filter_cons_of_pos h]
      apply filter_congr
      intro e' _
      simp only [List.map_cons, List.mem_cons, not_or, Bool.decide_and]
      exact Bool.and_comm _ _
    · rw [if_neg h, List.filter_cons_of_neg h]

end Table
