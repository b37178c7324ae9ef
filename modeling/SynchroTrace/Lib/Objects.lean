import Mathlib.Init

namespace Objects

variable {σ τ κ ω : Type*} {call : σ → κ → ω × σ} {call' : τ → κ → ω × τ}

def run (call : σ → κ → ω × σ) (s : σ) : List κ → List ω × σ
  | [] => ([], s)
  | c :: rest =>
    ((call s c).1 :: (run call (call s c).2 rest).1, (run call (call s c).2 rest).2)

/-- Related objects answer alike and stay related. -/
def Simulates (related : σ → τ → Prop) (call : σ → κ → ω × σ) (call' : τ → κ → ω × τ) : Prop :=
  ∀ s t c, related s t → (call s c).1 = (call' t c).1 ∧ related (call s c).2 (call' t c).2

theorem Simulates.run {related : σ → τ → Prop} (simulates : Simulates related call call') {s : σ}
    {t : τ} (start : related s t) (calls : List κ) :
    (run call s calls).1 = (run call' t calls).1 ∧
      related (run call s calls).2 (run call' t calls).2 := by
  induction calls generalizing s t with
  | nil => exact ⟨rfl, start⟩
  | cons c rest ih =>
    obtain ⟨answer, next⟩ := simulates s t c start
    obtain ⟨answers, final⟩ := ih next
    exact ⟨List.cons_eq_cons.mpr ⟨answer, answers⟩, final⟩

end Objects
