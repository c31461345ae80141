import Mathlib.Data.List.Basic

/-!
Functions that return a value or an error: what is known when one returned a value.
-/

namespace Goav.Lib

open List

universe u v

variable {ε : Type v} {α β : Type u}

def require (c : Prop) [Decidable c] (err : ε) : Except ε Unit := if c then .ok () else .error err

theorem require_eq_ok {c : Prop} [Decidable c] {err : ε} {u : Unit} : require c err = .ok u ↔ c := by
  unfold require
  split <;> simp_all

theorem ok_bind (a : α) (f : α → Except ε β) : (Except.ok a >>= f) = f a := rfl

variable {x : Except ε α} {f : α → Except ε β}

theorem bind_eq_ok {b : β} : (x >>= f) = .ok b ↔ ∃ a, x = .ok a ∧ f a = .ok b := by
  cases x with
  | error e => simp [bind, Except.bind]
  | ok a => simp [bind, Except.bind]

theorem map_eq_ok {f : α → β} {b : β} : x.map f = .ok b ↔ ∃ a, x = .ok a ∧ f a = b := by
  cases x <;> simp [Except.map]

theorem pure_eq_ok {a b : α} : (pure a : Except ε α) = .ok b ↔ a = b := by
  simp [pure, Except.pure]

theorem exists_of_mapM_eq_ok {l : List α} {l' : List β} (h : l.mapM f = .ok l') :
    ∀ b ∈ l', ∃ a ∈ l, f a = .ok b := by
  induction l generalizing l' with
  | nil =>
    rw [mapM_nil, pure_eq_ok] at h
    simp [← h]
  | cons a l ih =>
    rw [mapM_cons] at h
    obtain ⟨b, hb, h⟩ := bind_eq_ok.mp h
    obtain ⟨bs, hbs, h⟩ := bind_eq_ok.mp h
    rw [← pure_eq_ok.mp h]
    intro c hc
    rcases mem_cons.mp hc with rfl | hc
    · exact ⟨a, mem_cons_self, hb⟩
    · obtain ⟨a', ha', heq⟩ := ih hbs c hc
      exact ⟨a', mem_cons_of_mem _ ha', heq⟩

theorem foldlM_rel {R : β → β → Prop} (hrefl : ∀ b, R b b)
    (htrans : ∀ {b b' b''}, R b b' → R b' b'' → R b b'') {f : β → α → Except ε β}
    (hstep : ∀ {b a b'}, f b a = .ok b' → R b b') {l : List α} {b b' : β}
    (h : l.foldlM f b = .ok b') : R b b' := by
  induction l generalizing b with
  | nil =>
    rw [foldlM_nil, pure_eq_ok] at h
    exact h ▸ hrefl b
  | cons a l ih =>
    obtain ⟨b₁, hb₁, h⟩ := bind_eq_ok.mp h
    exact htrans (hstep hb₁) (ih h)

variable {E : ε → Prop} {P : α → Prop} {Q : β → Prop}

def Ends (E : ε → Prop) (P : α → Prop) : Except ε α → Prop
  | .ok a => P a
  | .error e => E e

theorem Ends.bind (h : Ends E P x) (hf : ∀ a, P a → Ends E Q (f a)) : Ends E Q (x >>= f) := by
  cases x with
  | error e => exact h
  | ok a => exact hf a h

theorem Ends.map {f : α → β} (h : Ends E (fun a => Q (f a)) x) : Ends E Q (x.map f) := by
  cases x <;> exact h

theorem Ends.foldlM {f : α → β → Except ε α} (hf : ∀ {a b}, P a → Ends E P (f a b)) (l : List β) {a : α}
    (h : P a) : Ends E P (l.foldlM f a) := by
  induction l generalizing a with
  | nil => exact h
  | cons b l ih => exact (hf h).bind fun a' h' => ih h'

theorem Ends.mapM (hf : ∀ a, Ends E (fun _ => True) (f a)) (l : List α) :
    Ends E (fun _ => True) (l.mapM f) := by
  induction l with
  | nil => trivial
  | cons a l ih =>
    rw [mapM_cons]
    exact (hf a).bind fun _ _ => ih.bind fun _ _ => trivial

end Goav.Lib
