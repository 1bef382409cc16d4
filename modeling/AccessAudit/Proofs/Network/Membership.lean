import AccessAudit.Network.Block
import Mathlib.Data.Nat.Bitwise

/-!
# Blocks as intervals

A block holds the addresses of its family that share its leading bits.  The mask that picks out these
bits is worked out in words of 128 bits, for addresses of 32 bits too, and no step of it leaves the
words, from no leading bits at all up to all of them.  With the mask gone, membership is a matter of
quotients: the numbers that agree but for their last bits are an interval whose length is a power of
two.
-/

namespace AccessAudit

/-- The number that an address is. -/
def Address.value : Address → Nat
  | .v4 bits => bits.toNat
  | .v6 bits => bits.toNat

theorem Address.width_cases
    (a : Address) :
    a.width = 32 ∨ a.width = 128 := by
  cases a with
  | v4 bits => exact Or.inl rfl
  | v6 bits => exact Or.inr rfl

namespace Block

/-- The number of bits in which members may differ. -/
def freeBits (b : Block) : Nat :=
  b.network.width - b.length

/-- The least member: the network with its free bits cleared. -/
def base (b : Block) : Nat :=
  b.network.value / 2 ^ b.freeBits * 2 ^ b.freeBits

/-! ### The mask -/

theorem bitAt?_of_lt
    {n : Nat}
    (h : n < 128) :
    bitAt? n = some (BitVec.twoPow 128 n) := by
  rw [bitAt?, if_pos h, BitVec.twoPow_eq]
  rfl

/-- Below a single bit all bits are set. -/
theorem predecessor?_twoPow
    {n : Nat}
    (h : n < 128) :
    predecessor? (BitVec.twoPow 128 n) = some (BitVec.ofNat 128 (2 ^ n - 1)) := by
  have hlt : 2 ^ n < 2 ^ 128 := Nat.pow_lt_pow_right (by decide) h
  have hpos : 0 < 2 ^ n := Nat.two_pow_pos n
  have hword : (BitVec.twoPow 128 n).toNat = 2 ^ n := by
    rw [BitVec.toNat_twoPow, Nat.mod_eq_of_lt hlt]
  have hne : BitVec.twoPow 128 n ≠ 0 := by
    intro hzero
    have := congrArg BitVec.toNat hzero
    rw [hword] at this
    exact absurd this (Nat.ne_of_gt hpos)
  rw [predecessor?, if_neg hne]
  refine congrArg some (BitVec.eq_of_toNat_eq ?_)
  have hle : (1 : BitVec 128) ≤ BitVec.twoPow 128 n := by
    rw [BitVec.le_def, hword]
    exact hpos
  rw [BitVec.toNat_sub_of_le hle, hword, BitVec.toNat_ofNat,
    Nat.mod_eq_of_lt (Nat.lt_of_le_of_lt (Nat.sub_le _ _) hlt)]
  rfl

theorem lowestBits?_eq
    {width : Nat}
    (hwidth : width = 32 ∨ width = 128) :
    lowestBits? width = some (BitVec.ofNat 128 (2 ^ width - 1)) := by
  rcases hwidth with rfl | rfl
  · rw [lowestBits?, if_neg (by decide), bitAt?_of_lt (by decide)]
    exact predecessor?_twoPow (by decide)
  · rfl

/-- The mask is worked out without a step that fails, and has the leading bits of its width. -/
theorem exists_maskWord
    {width length : Nat}
    (hwidth : width = 32 ∨ width = 128)
    (hlength : length ≤ width) :
    ∃ m, maskWord? width length = some m ∧
      ∀ i, m.getLsbD i = (decide (width - length ≤ i) && decide (i < width)) := by
  have hle : width ≤ 128 := by omega
  by_cases hzero : length = 0
  · refine ⟨0, by rw [maskWord?, if_pos hzero], fun i => ?_⟩
    rw [hzero, BitVec.ofNat_eq_ofNat, BitVec.getLsbD_zero]
    simp
  · have hrest : width - length < 128 := by omega
    have hword : maskWord? width length =
        some (BitVec.ofNat 128 (2 ^ width - 1) &&& ~~~BitVec.ofNat 128 (2 ^ (width - length) - 1)) := by
      rw [maskWord?, if_neg hzero]
      simp only [bind, lowestBits?_eq hwidth, bitsAfter?, if_pos hlength, Option.bind_some,
        bitAt?_of_lt hrest, predecessor?_twoPow hrest]
      rfl
    refine ⟨_, hword, fun i => ?_⟩
    simp only [BitVec.getLsbD_and, BitVec.getLsbD_not, BitVec.getLsbD_ofNat,
      Nat.testBit_two_pow_sub_one]
    by_cases hi : i < width
    · have hi' : i < 128 := by omega
      by_cases hfree : width - length ≤ i
      · simp [hi, hi', hfree, Nat.not_lt.mpr hfree]
      · simp [hfree, Nat.not_le.mp hfree]
    · simp [hi]

theorem getLsbD_mask
    {width length : Nat}
    (hwidth : width = 32 ∨ width = 128)
    (hlength : length ≤ width)
    (i : Nat) :
    (mask width length).getLsbD i = (decide (width - length ≤ i) && decide (i < width)) := by
  obtain ⟨m, hm, hbits⟩ := exists_maskWord hwidth hlength
  rw [mask, hm, Option.getD_some, BitVec.getLsbD_setWidth, hbits]
  by_cases hi : i < width
  · simp [hi]
  · simp [hi]

/-! ### Agreement in the leading bits -/

/-- Numbers have the same quotient by a power of two if they agree from that bit on. -/
theorem div_two_pow_eq_iff
    (k x y : Nat) :
    x / 2 ^ k = y / 2 ^ k ↔ ∀ i, k ≤ i → x.testBit i = y.testBit i := by
  constructor
  · intro h i hi
    obtain ⟨j, rfl⟩ := Nat.exists_eq_add_of_le hi
    rw [Nat.add_comm k j, ← Nat.testBit_div_two_pow, ← Nat.testBit_div_two_pow, h]
  · intro h
    refine Nat.eq_of_testBit_eq fun i => ?_
    rw [Nat.testBit_div_two_pow, Nat.testBit_div_two_pow]
    exact h (i + k) (Nat.le_add_left k i)

/-- Under the mask two words are the same if they agree in the bits that it picks out. -/
theorem and_mask_eq_iff
    {width length : Nat}
    (hwidth : width = 32 ∨ width = 128)
    (hlength : length ≤ width)
    (x y : BitVec width) :
    x &&& mask width length = y &&& mask width length ↔
      x.toNat / 2 ^ (width - length) = y.toNat / 2 ^ (width - length) := by
  rw [div_two_pow_eq_iff]
  simp only [BitVec.testBit_toNat]
  constructor
  · intro h i hi
    by_cases hlt : i < width
    · have hbit := congrArg (fun w => w.getLsbD i) h
      simpa only [BitVec.getLsbD_and, getLsbD_mask hwidth hlength, hi, hlt, decide_true,
        Bool.and_true] using hbit
    · rw [BitVec.getLsbD_of_ge x i (Nat.not_lt.mp hlt), BitVec.getLsbD_of_ge y i (Nat.not_lt.mp hlt)]
  · intro h
    refine BitVec.eq_of_getLsbD_eq fun i hlt => ?_
    simp only [BitVec.getLsbD_and, getLsbD_mask hwidth hlength]
    by_cases hi : width - length ≤ i
    · rw [h i hi]
    · simp [hi]

/-- Membership as equality of quotients. -/
theorem contains_iff_div
    (b : Block)
    (a : Address) :
    b.contains a = true ↔
      a.width = b.network.width ∧
        a.value / 2 ^ b.freeBits = b.network.value / 2 ^ b.freeBits := by
  obtain ⟨network, length, hlength⟩ := b
  cases network with
  | v4 net =>
      cases a with
      | v4 bits =>
          simp only [contains, beq_iff_eq, and_mask_eq_iff (Or.inl rfl) hlength]
          exact ⟨fun h => ⟨rfl, h.symm⟩, fun h => h.2.symm⟩
      | v6 bits => simp [contains, Address.width]
  | v6 net =>
      cases a with
      | v4 bits => simp [contains, Address.width]
      | v6 bits =>
          simp only [contains, beq_iff_eq, and_mask_eq_iff (Or.inr rfl) hlength]
          exact ⟨fun h => ⟨rfl, h.symm⟩, fun h => h.2.symm⟩

/-- The numbers with one quotient are an interval. -/
theorem div_eq_iff_between
    (k x y : Nat) :
    x / 2 ^ k = y / 2 ^ k ↔
      y / 2 ^ k * 2 ^ k ≤ x ∧ x ≤ y / 2 ^ k * 2 ^ k + (2 ^ k - 1) := by
  have hpos : 0 < 2 ^ k := Nat.two_pow_pos k
  rw [Nat.div_eq_iff hpos]
  omega

theorem testBit_base
    (b : Block)
    (i : Nat) :
    b.base.testBit i = (decide (b.freeBits ≤ i) && b.network.value.testBit i) := by
  rw [base, Nat.testBit_mul_two_pow]
  by_cases hi : b.freeBits ≤ i
  · rw [Nat.testBit_div_two_pow, Nat.sub_add_cancel hi]
  · simp [hi]

/-- A block holds exactly the addresses of its family from its base on, as many as its free bits make,
for every length from none to all bits.  These are the addresses that share the leading bits of its
network; its free bits make no difference, and a shorter block of the same network holds no less. -/
theorem contains_iff_between
    (b : Block) :
    -- the mask is worked out without leaving the words, and has the leading bits of the family
    (∃ m, maskWord? b.network.width b.length = some m ∧
      ∀ i, m.getLsbD i = (decide (b.freeBits ≤ i) && decide (i < b.network.width))) ∧
    -- the base is the network with its free bits cleared
    (∀ i, b.base.testBit i = (decide (b.freeBits ≤ i) && b.network.value.testBit i)) ∧
    -- members are the addresses of the interval, and those with the same leading bits
    (∀ a, b.contains a = true ↔
      a.width = b.network.width ∧ b.base ≤ a.value ∧ a.value ≤ b.base + (2 ^ b.freeBits - 1)) ∧
    (∀ a, b.contains a = true ↔
      a.width = b.network.width ∧
        ∀ i, b.freeBits ≤ i → a.value.testBit i = b.network.value.testBit i) ∧
    -- a shorter block of the same network has all these members
    (∀ c : Block, c.network = b.network → c.length ≤ b.length →
      ∀ a, b.contains a = true → c.contains a = true) ∧
    -- a block whose network differs in free bits only has the same members
    (∀ c : Block, c.network.width = b.network.width → c.length = b.length →
      (∀ i, b.freeBits ≤ i → c.network.value.testBit i = b.network.value.testBit i) →
      ∀ a, c.contains a = b.contains a) := by
  refine ⟨exists_maskWord b.network.width_cases b.length_le, b.testBit_base, ?_, ?_, ?_, ?_⟩
  · intro a
    rw [contains_iff_div, div_eq_iff_between, base]
  · intro a
    rw [contains_iff_div, div_two_pow_eq_iff]
  · intro c hnetwork hlength a ha
    rw [contains_iff_div, div_two_pow_eq_iff] at ha ⊢
    rw [hnetwork]
    refine ⟨ha.1, fun i hi => ha.2 i ?_⟩
    rw [freeBits, hnetwork] at hi
    have := b.length_le
    unfold freeBits
    omega
  · intro c hwidth hlength hbits a
    have hfree : c.freeBits = b.freeBits := by rw [freeBits, freeBits, hwidth, hlength]
    have hquotient := (div_two_pow_eq_iff b.freeBits _ _).mpr hbits
    rw [Bool.eq_iff_iff, contains_iff_div, contains_iff_div, hwidth, hfree, hquotient]

/-- Twelve bits of one address of a private network hold all of that network and nothing after it, and
no bits at all hold every address of the family. -/
theorem privateNetwork_between :
    ∃ b c : Block,
      ofText "172.20.5.9/12" = .ok b ∧ ofText " 172.20.5.9/ 0" = .ok c ∧
      b.contains (.v4 0xAC1FFFFF) = true ∧ b.contains (.v4 0xAC200000) = false ∧
      c.length ≤ b.length ∧ c.contains (.v4 0xAC1FFFFF) = true := by
  let b : Block := ⟨.v4 0xAC140509, 12, by decide⟩
  let c : Block := ⟨.v4 0xAC140509, 0, by decide⟩
  obtain ⟨-, -, hbetween, -, hshorter, -⟩ := contains_iff_between b
  have hlast : b.contains (.v4 0xAC1FFFFF) = true := (hbetween _).mpr (by decide +kernel)
  have hnext : b.contains (.v4 0xAC200000) ≠ true := fun h =>
    absurd ((hbetween _).mp h) (by decide +kernel)
  exact ⟨b, c, rfl, rfl, hlast, Bool.eq_false_iff.mpr hnext, by decide,
    hshorter c rfl (by decide) _ hlast⟩

end Block
end AccessAudit
