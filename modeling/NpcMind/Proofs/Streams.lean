import Mathlib
import NpcMind.Proofs.Outcome
import NpcMind.Recurrent.Stack

/-!
# Streams go through all words

Scrambling xors a word with its own upper bits and multiplies it by odd words. Each of these steps can be undone, so
scrambling is a permutation of the words, and with it the step from a position to its bits: a stream gives every word
once before it starts over. What it gives depends on its seed and on the position alone, and distinct layers of a
controller draw their first parameters from distinct seeds.
-/

namespace NpcMind

open Outcome

namespace Sampler

/-! ### Every step can be undone -/

/-- Two words that become the same differ by a word that is its own upper bits, and that is zero. -/
theorem xor_shiftRight_injective {k : UInt64} (hk : 0 < k.toNat % 64) :
    Function.Injective fun z : UInt64 => z ^^^ (z >>> k) := by
  intro x y h
  have hsame : x ^^^ y = (x ^^^ y) >>> k := by
    rw [UInt64.shiftRight_xor, ← UInt64.xor_eq_zero_iff]
    have hzero := UInt64.xor_eq_zero_iff.mpr h
    rwa [UInt64.xor_assoc, ← UInt64.xor_assoc (x >>> k), UInt64.xor_comm (x >>> k), UInt64.xor_assoc y,
      ← UInt64.xor_assoc x] at hzero
  have hnat : (x ^^^ y).toNat = (x ^^^ y).toNat / 2 ^ (k.toNat % 64) := by
    rw [← Nat.shiftRight_eq_div_pow, ← UInt64.toNat_shiftRight, ← hsame]
  have hpow : 1 < 2 ^ (k.toNat % 64) := Nat.one_lt_two_pow hk.ne'
  have hzero : (x ^^^ y).toNat = 0 := by
    by_contra hne
    exact absurd hnat (Nat.div_lt_self (Nat.pos_of_ne_zero hne) hpow).ne'
  exact UInt64.xor_eq_zero_iff.mp (UInt64.toNat_inj.mp hzero)

theorem mul_injective {a b : UInt64} (h : a * b = 1) : Function.Injective (· * a) :=
  Function.LeftInverse.injective (g := (· * b)) fun z => by
    show z * a * b = z
    rw [UInt64.mul_assoc, h, UInt64.mul_one]

theorem scramble_injective : Function.Injective scramble := by
  have hfirst : Function.Injective fun z : UInt64 => z * 0xBF58476D1CE4E5B9 :=
    mul_injective (b := 0x96DE1B173F119089) (by decide)
  have hsecond : Function.Injective fun z : UInt64 => z * 0x94D049BB133111EB :=
    mul_injective (b := 0x319642B2D24D8EC3) (by decide)
  exact (xor_shiftRight_injective (k := 31) (by decide)).comp <|
    (hsecond.comp (xor_shiftRight_injective (k := 27) (by decide))).comp <|
    hfirst.comp (xor_shiftRight_injective (k := 30) (by decide))

theorem gamma_injective : Function.Injective (· * gamma) :=
  mul_injective (b := 0xF1DE83E19937733D) (by decide)

/-- **Positions and bits correspond**, for every seed. -/
theorem bijective_mix (seed : UInt64) : Function.Bijective (mix seed) := by
  rw [← Finite.injective_iff_bijective]
  intro m n h
  have hplace : (m + 1) * gamma = (n + 1) * gamma := UInt64.add_right_inj seed |>.mp (scramble_injective h)
  exact UInt64.add_left_inj 1 |>.mp (gamma_injective hplace)

/-- **Seeds and bits correspond**, at every position. -/
theorem bijective_mix_seed (counter : UInt64) : Function.Bijective (mix · counter) := by
  rw [← Finite.injective_iff_bijective]
  intro seed seed' h
  exact UInt64.add_left_inj _ |>.mp (scramble_injective h)

/-! ### Draws -/

/-- The stream after some draws. -/
def skip (s : Sampler) : ℕ → Sampler
  | 0 => s
  | n + 1 => (s.skip n).next.2

/-- The bits that come after some draws. -/
def draw (s : Sampler) (n : ℕ) : UInt64 := (s.skip n).next.1

theorem skip_eq (s : Sampler) (n : ℕ) : s.skip n = ⟨s.seed, s.counter + .ofNat n⟩ := by
  induction n with
  | zero => exact congrArg (Sampler.mk s.seed) (UInt64.add_zero s.counter).symm
  | succ n ih =>
    rw [skip, ih, next, UInt64.ofNat_add, ← UInt64.add_assoc]
    rfl

theorem draw_eq (s : Sampler) (n : ℕ) : s.draw n = mix s.seed (s.counter + .ofNat n) := by
  rw [draw, skip_eq, next]

/-- What is drawn repeats after as many draws as there are words, and not before. -/
theorem draw_inj (s : Sampler) (m n : ℕ) : s.draw m = s.draw n ↔ m % UInt64.size = n % UInt64.size := by
  rw [draw_eq, draw_eq, (bijective_mix s.seed).injective.eq_iff, UInt64.add_right_inj, ← UInt64.toNat_inj]
  simp only [UInt64.toNat_ofNat', UInt64.size]

theorem draw_skip (s : Sampler) (m n : ℕ) : (s.skip m).draw n = s.draw (m + n) := by
  rw [draw_eq, draw_eq, skip_eq, UInt64.ofNat_add, UInt64.add_assoc]

end Sampler

/-! ### Layers -/

namespace Cell

theorem eq_ofSeed_of_allocate {inputSize hiddenSize : ℕ} {seed : UInt64} {forgetBias : Float32} {cell : Cell}
    (h : allocate inputSize hiddenSize seed forgetBias = .ok cell) :
    cell = ofSeed inputSize hiddenSize seed forgetBias := by
  unfold allocate at h
  obtain ⟨_, -, h⟩ := ok_of_bind h
  obtain ⟨_, -, h⟩ := ok_of_bind h
  dsimp only at h
  split at h
  · obtain ⟨_, -, h⟩ := ok_of_bind h
    cases h
    rfl
  · cases h
    rfl

end Cell

namespace Stack

variable {c : Config.Controller} {cells : List Cell} {sizes : List ℕ} {inputSize number i : ℕ} {s : Stack}

theorem getElem?_layersFrom (h : layersFrom c inputSize number sizes = .ok cells) (hi : i < cells.length) :
    cells[i]? = some (Cell.ofSeed ((inputSize :: sizes).getD i 0) (sizes.getD i 0)
      (Sampler.mix c.initSeed (.ofNat (number + i))) c.forgetBias) := by
  induction sizes generalizing inputSize number cells i with
  | nil =>
    cases h
    exact absurd hi (Nat.not_lt_zero i)
  | cons hiddenSize rest ih =>
    obtain ⟨cell, hcell, h⟩ := ok_of_bind h
    obtain ⟨tail, htail, h⟩ := ok_of_bind h
    cases h
    cases i with
    | zero => exact congrArg some (Cell.eq_ofSeed_of_allocate hcell)
    | succ i =>
      have hrest := ih htail (Nat.lt_of_succ_lt_succ hi)
      rw [Nat.add_right_comm] at hrest
      exact hrest

theorem getElem?_ofConfig (h : ofConfig inputSize c = .ok s) (hi : i < s.layers.length) :
    s.layers[i]? = some (Cell.ofSeed ((inputSize :: c.hiddenSizes).getD i 0) (c.hiddenSizes.getD i 0)
      (Sampler.mix c.initSeed (.ofNat i)) c.forgetBias) := by
  unfold ofConfig at h
  dsimp only at h
  split at h
  · cases h
  · obtain ⟨layers, hlayers, h⟩ := ok_of_bind h
    cases h
    have hlayer := getElem?_layersFrom hlayers hi
    rwa [Nat.zero_add] at hlayer

end Stack

/-- **`mix` is bijective and `draw` has the period `2 ^ 64`.** At every seed `mix` is a bijection from counters to
words, and at every counter one from seeds. `s.draw n` is `mix s.seed (s.counter + n)`, so that `s.draw m = s.draw n`
exactly if `m` and `n` are the same modulo `UInt64.size`; the sampler at the counter `n` further on draws from there
what `s` draws after `n`. Layer `i` of a stack that `c` builds is `Cell.ofSeed` of `mix c.initSeed i`, and no two
layers have the same seed. -/
theorem Sampler.mix_bijective_draw_periodic (s : Sampler) {inputSize : ℕ} {c : Config.Controller} {stack : Stack}
    (hstack : Stack.ofConfig inputSize c = .ok stack) :
    Function.Bijective (mix s.seed) ∧ Function.Bijective (mix · s.counter) ∧
    (∀ n, s.draw n = mix s.seed (s.counter + .ofNat n)) ∧
    (∀ m n, s.draw m = s.draw n ↔ m % UInt64.size = n % UInt64.size) ∧
    (∀ n, s.skip n = ⟨s.seed, s.counter + .ofNat n⟩ ∧
      ∀ m, (Sampler.mk s.seed (s.counter + .ofNat n)).draw m = s.draw (n + m)) ∧
    (∀ i : UInt64, i.toNat < stack.layers.length → stack.layers[i.toNat]? = some (Cell.ofSeed
      ((inputSize :: c.hiddenSizes).getD i.toNat 0) (c.hiddenSizes.getD i.toNat 0) (mix c.initSeed i) c.forgetBias)) ∧
    (∀ i j : UInt64, i ≠ j → mix c.initSeed i ≠ mix c.initSeed j) := by
  refine ⟨bijective_mix s.seed, bijective_mix_seed s.counter, s.draw_eq, s.draw_inj, fun n => ⟨s.skip_eq n, fun m => ?_⟩,
    fun i hi => ?_, fun i j => (bijective_mix c.initSeed).injective.ne⟩
  · rw [← skip_eq, draw_skip]
  · have hlayer := Stack.getElem?_ofConfig hstack hi
    rwa [UInt64.ofNat_toNat] at hlayer

/-- A stream at the last position goes on from the first one and starts over after all words, and the two layers of a
controller have seeds of their own. -/
theorem mix_bijective_draw_periodic_at_last_word : ∃ stack,
    Stack.ofConfig 1 { hiddenSizes := [1, 2], initSeed := 42 } = .ok stack ∧ stack.layers.length = 2 ∧
    (Sampler.mk 42 0xFFFFFFFFFFFFFFFF).draw 1 = Sampler.mix 42 0 ∧
    (Sampler.mk 42 0xFFFFFFFFFFFFFFFF).draw 18446744073709551617 = Sampler.mix 42 0 ∧
    (Sampler.mk 42 0xFFFFFFFFFFFFFFFF).draw 0 ≠ Sampler.mix 42 0 ∧
    stack.layers[1]? = some (Cell.ofSeed 1 2 (Sampler.mix 42 1) 0.1) := by
  obtain ⟨stack, hstack, hlength⟩ : ∃ stack, Stack.ofConfig 1 { hiddenSizes := [1, 2], initSeed := 42 } = .ok stack ∧
    stack.layers.length = 2 := ⟨_, rfl, rfl⟩
  obtain ⟨-, -, hdraw, hsame, -, hlayer, -⟩ := Sampler.mix_bijective_draw_periodic ⟨42, 0xFFFFFFFFFFFFFFFF⟩ hstack
  have hone : (Sampler.mk 42 0xFFFFFFFFFFFFFFFF).draw 1 = Sampler.mix 42 0 := by
    rw [hdraw, show (0xFFFFFFFFFFFFFFFF + UInt64.ofNat 1 : UInt64) = 0 from rfl]
  refine ⟨stack, hstack, hlength, hone, ?_, ?_, hlayer 1 ?_⟩
  · rw [← hone, hsame]
    rfl
  · rw [← hone, ne_eq, hsame]
    decide
  · rw [hlength]
    decide

end NpcMind
