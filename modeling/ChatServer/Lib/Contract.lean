import ChatServer.Lib.Owes

/-!
# Contracts between threads

A `Contract` says what a thread may count on from the others and what its own steps do.
`Meets` is the judgement that code keeps a contract and an invariant of the memory from a
given memory on, with any steps of the others in between.
-/

namespace Program

/-- `rely` bounds the steps of the other threads. `guar` bounds the steps of the thread itself:
the memory before and after the step, and what the rest of the code owes. -/
structure Contract (σ : Type) where
  rely : σ → σ → Prop
  guar : σ → σ → ((σ → σ → Prop) → Prop) → Prop
  rely_refl : ∀ s, rely s s
  rely_trans : ∀ {s t u}, rely s t → rely t u → rely s u
  guar_refl : ∀ s owed, guar s s owed
  guar_mono : ∀ {s t owed owed'}, (∀ P, owed P → owed' P) → guar s t owed → guar s t owed'

variable {μ σ α β : Type} [DecidableEq μ]

/-- From memory `s` on, the code keeps `I` and its contract, and ends only where `Q` holds. -/
inductive Meets (m : μ) (I : σ → Prop) (C : Contract σ) (Q : α → σ → Prop) :
    Program μ σ α → σ → Prop
  | intro {p s}
      (ends : ∀ a s', C.rely s s' → I s' → p = .ret a → Q a s')
      (keeps : ∀ s' p' s'', C.rely s s' → I s' → advance m p s' = some (p', s'') →
        I s'' ∧ C.guar s' s'' (Owes m I · p'))
      (next : ∀ s' p' s'', C.rely s s' → I s' → advance m p s' = some (p', s'') →
        Meets m I C Q p' s'') : Meets m I C Q p s

namespace Meets

variable {m : μ} {I : σ → Prop} {C : Contract σ} {Q : α → σ → Prop} {Q' : β → σ → Prop}

theorem done {a : α} {s : σ} (h : Meets m I C Q (.ret a) s) (hs : I s) : Q a s := by
  cases h with
  | intro ends _ _ => exact ends a s (C.rely_refl s) hs rfl

theorem stable {p : Program μ σ α} {s s' : σ} (h : Meets m I C Q p s) (hs : C.rely s s') :
    Meets m I C Q p s' := by
  cases h with
  | intro ends keeps next =>
    exact .intro (fun a t ht => ends a t (C.rely_trans hs ht))
      (fun t p' t' ht => keeps t p' t' (C.rely_trans hs ht))
      (fun t p' t' ht => next t p' t' (C.rely_trans hs ht))

theorem of_rely {p : Program μ σ α} {s : σ}
    (h : ∀ s', C.rely s s' → I s' → Meets m I C Q p s') : Meets m I C Q p s := by
  refine .intro ?_ ?_ ?_
  · intro a s' hr hi hp
    subst hp
    exact (h s' hr hi).done hi
  · intro s' p' s'' hr hi hadv
    cases h s' hr hi with
    | intro _ keeps _ => exact keeps s' p' s'' (C.rely_refl s') hi hadv
  · intro s' p' s'' hr hi hadv
    cases h s' hr hi with
    | intro _ _ next => exact next s' p' s'' (C.rely_refl s') hi hadv

protected theorem ret {a : α} {s : σ} (h : ∀ s', C.rely s s' → I s' → Q a s') :
    Meets m I C Q (.ret a) s := by
  refine .intro ?_ ?_ ?_
  · rintro b s' hr hi ⟨⟩
    exact h s' hr hi
  · intro s' p' s'' _ _ hadv
    simp [advance] at hadv
  · intro s' p' s'' _ _ hadv
    simp [advance] at hadv

theorem mono {R : α → σ → Prop} {p : Program μ σ α} {s : σ} (h : Meets m I C Q p s)
    (hqr : ∀ a s, I s → Q a s → R a s) : Meets m I C R p s := by
  induction h with
  | intro ends keeps _ ih =>
    exact .intro (fun a s' hr hi hp => hqr a s' hi (ends a s' hr hi hp)) keeps ih

/-- Sequencing. The first part holds no lock at its end, so no step spans both. -/
protected theorem bind {p : Program μ σ α} {f : α → Program μ σ β} {s : σ}
    (hp : Balanced m false p) (h : Meets m I C Q p s)
    (hf : ∀ a s', I s' → Q a s' → Meets m I C Q' (f a) s') : Meets m I C Q' (p.bind f) s := by
  induction h with
  | @intro p s ends keeps next ih =>
    by_cases hpure : ∃ a, p = .ret a
    · obtain ⟨a, rfl⟩ := hpure
      exact of_rely fun s' hr hi => hf a s' hi (ends a s' hr hi rfl)
    · have hgo : ∀ a, p ≠ .ret a := fun a ha => hpure ⟨a, ha⟩
      refine .intro ?_ ?_ ?_
      · intro b s' _ _ hb
        exact absurd hb (bind_ne_ret hgo f b)
      · intro s' q s'' hr hi hadv
        obtain ⟨p', hp', rfl⟩ := advance_bind_of_ne hp hgo f hadv
        obtain ⟨hi', hg⟩ := keeps s' p' s'' hr hi hp'
        exact ⟨hi', C.guar_mono (fun _ ho => ho.bind (balanced_advance hp hp')) hg⟩
      · intro s' q s'' hr hi hadv
        obtain ⟨p', hp', rfl⟩ := advance_bind_of_ne hp hgo f hadv
        exact ih s' p' s'' hr hi hp' (balanced_advance hp hp')

/-- A critical section is one step, so it is judged by what it does alone. What it promises,
the code after it may owe. -/
theorem section_bind {p : Program μ σ α} {f : α → Program μ σ β} {s : σ} (hp : IsSection m p)
    (h : ∀ s', C.rely s s' → I s' → I (p.run s').2 ∧
      C.guar s' (p.run s').2 (Owes m I · (f (p.run s').1)) ∧
      Meets m I C Q' (f (p.run s').1) (p.run s').2) : Meets m I C Q' (p.bind f) s := by
  refine .intro ?_ ?_ ?_
  · intro b s' _ _ hb
    exact absurd hb (hp.bind_ne_ret f b)
  · intro s' p' s'' hr hi hadv
    rw [hp.advance_bind] at hadv
    simp only [Option.some.injEq, Prod.mk.injEq] at hadv
    obtain ⟨rfl, rfl⟩ := hadv
    exact ⟨(h s' hr hi).1, (h s' hr hi).2.1⟩
  · intro s' p' s'' hr hi hadv
    rw [hp.advance_bind] at hadv
    simp only [Option.some.injEq, Prod.mk.injEq] at hadv
    obtain ⟨rfl, rfl⟩ := hadv
    exact (h s' hr hi).2.2

theorem of_section {p : Program μ σ α} {s : σ} (hp : IsSection m p)
    (h : ∀ s', C.rely s s' → I s' → I (p.run s').2 ∧ C.guar s' (p.run s').2 (fun _ => False) ∧
      ∀ t, C.rely (p.run s').2 t → I t → Q (p.run s').1 t) : Meets m I C Q p s := by
  rw [← bind_ret p]
  apply section_bind hp
  intro s' hr hi
  obtain ⟨hi', hg, hq⟩ := h s' hr hi
  exact ⟨hi', C.guar_mono (fun _ => False.elim) hg, .ret hq⟩

protected theorem access {f : σ → σ} {k : σ → Program μ σ α} {s : σ}
    (h : ∀ s', C.rely s s' → I s' → I (f s') ∧ C.guar s' (f s') (Owes m I · (k s')) ∧
      Meets m I C Q (k s') (f s')) : Meets m I C Q (.access f k) s := by
  refine .intro ?_ ?_ ?_
  · intro a s' _ _ hp
    cases hp
  · intro s' p' s'' hr hi hadv
    simp only [advance, Option.some.injEq, Prod.mk.injEq] at hadv
    obtain ⟨rfl, rfl⟩ := hadv
    exact ⟨(h s' hr hi).1, (h s' hr hi).2.1⟩
  · intro s' p' s'' hr hi hadv
    simp only [advance, Option.some.injEq, Prod.mk.injEq] at hadv
    obtain ⟨rfl, rfl⟩ := hadv
    exact (h s' hr hi).2.2

theorem skip {p q : Program μ σ α} {s : σ} (hadv : ∀ s, advance m p s = some (q, s))
    (h : Meets m I C Q q s) : Meets m I C Q p s := by
  refine .intro ?_ ?_ ?_
  · rintro a s' _ _ rfl
    exact absurd (hadv s) (by simp [advance])
  · intro s' p' s'' _ hi h
    rw [hadv] at h
    simp only [Option.some.injEq, Prod.mk.injEq] at h
    obtain ⟨-, rfl⟩ := h
    exact ⟨hi, C.guar_refl s' _⟩
  · intro s' p' s'' hr _ h'
    rw [hadv] at h'
    simp only [Option.some.injEq, Prod.mk.injEq] at h'
    obtain ⟨rfl, rfl⟩ := h'
    exact h.stable hr

theorem settled {p : Program μ σ α} {s : σ} (h : Meets m I C Q p s) :
    Meets m I C (fun a s => ∀ t, C.rely s t → I t → Q a t) p s := by
  induction h with
  | intro ends keeps _ ih =>
    exact .intro (fun a s' hr _ hp t ht hi => ends a t (C.rely_trans hr ht) hi hp) keeps ih

protected theorem async {task : Program μ σ α} {s : σ} (ht : Balanced m false task)
    (h : Meets m I C Q task s) : Meets m I C Q (async task) s := by
  refine skip (q := task.bind fun a => .join (.ret a)) (fun _ => rfl) ?_
  refine Meets.bind ht h.settled ?_
  intro a s' _ hq
  exact skip (q := .ret a) (fun _ => rfl) (.ret hq)

/-- A loop, with `J` as its invariant between rounds. -/
protected theorem forEach {ι : Type} {f : ι → Program μ σ Unit} {J : σ → Prop} (is : List ι)
    {s : σ} (hbal : ∀ i, Balanced m false (f i))
    (hf : ∀ i ∈ is, ∀ s', I s' → J s' → Meets m I C (fun _ => J) (f i) s')
    (hJ : ∀ s', C.rely s s' → I s' → J s') : Meets m I C (fun _ => J) (forEach is f) s := by
  induction is generalizing s with
  | nil => exact .ret hJ
  | cons i is ih =>
    apply of_rely
    intro s' hr hi
    have hfirst := (hf i List.mem_cons_self s' hi (hJ s' hr hi)).settled
    refine hfirst.bind (hbal i) ?_
    intro _ t _ hq
    exact ih (fun j hj => hf j (List.mem_cons_of_mem i hj)) hq

theorem frame {J : σ → Prop} {p : Program μ σ α} {s : σ} (h : Meets m I C Q p s)
    (hrely : ∀ s s', C.rely s s' → J s → J s')
    (hguar : ∀ s s' owed, C.guar s s' owed → J s → J s') (hJ : J s) :
    Meets m I C (fun a s => Q a s ∧ J s) p s := by
  induction h with
  | intro ends keeps _ ih =>
    refine .intro ?_ keeps ?_
    · exact fun a s' hr hi hp => ⟨ends a s' hr hi hp, hrely _ _ hr hJ⟩
    · intro s' p' s'' hr hi hadv
      exact ih s' p' s'' hr hi hadv (hguar _ _ _ (keeps s' p' s'' hr hi hadv).2 (hrely _ _ hr hJ))

theorem weaken {C' : Contract σ} {p : Program μ σ α} {s : σ}
    (h : Meets m I C Q p s) (hrely : ∀ s s', C'.rely s s' → C.rely s s')
    (hguar : ∀ s s' owed, C.guar s s' owed → C'.guar s s' owed) : Meets m I C' Q p s := by
  induction h with
  | intro ends keeps _ ih =>
    refine .intro ?_ ?_ ?_
    · exact fun a s' hr hi hp => ends a s' (hrely _ _ hr) hi hp
    · intro s' p' s'' hr hi hadv
      obtain ⟨hi', hg⟩ := keeps s' p' s'' (hrely _ _ hr) hi hadv
      exact ⟨hi', hguar _ _ _ hg⟩
    · exact fun s' p' s'' hr hi hadv => ih s' p' s'' (hrely _ _ hr) hi hadv

end Meets

/-! ## A pool of threads -/

variable {τ : Type} [DecidableEq τ] {m : μ} {I : σ → Prop} {C : τ → Contract σ}
  {Q : τ → Unit → σ → Prop} {pool : τ → Program μ σ Unit}

/-- If each thread's own steps are steps that all others count on, then a step of one thread
keeps every thread's judgement. -/
theorem Meets.advance_pool {s s' : σ} {t : τ} {p' : Program μ σ Unit}
    (hfit : ∀ t u, t ≠ u → ∀ s s' owed, I s → I s' → (C t).guar s s' owed → (C u).rely s s')
    (hpool : ∀ u, Meets m I (C u) (Q u) (pool u) s) (hs : I s)
    (hadv : advance m (pool t) s = some (p', s')) :
    I s' ∧ (C t).guar s s' (Owes m I · p') ∧
      ∀ u, Meets m I (C u) (Q u) (Function.update pool t p' u) s' := by
  have ht := hpool t
  cases ht with
  | intro _ keeps next =>
    obtain ⟨hi, hg⟩ := keeps s p' s' ((C t).rely_refl s) hs hadv
    refine ⟨hi, hg, fun u => ?_⟩
    by_cases hu : u = t
    · subst hu
      rw [Function.update_self]
      exact next s p' s' ((C u).rely_refl s) hs hadv
    · rw [Function.update_of_ne hu]
      exact (hpool u).stable (hfit t u (Ne.symm hu) s s' _ hs hi hg)

end Program
