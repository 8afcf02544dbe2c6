import Mathlib.Tactic.Linarith
import Mathlib.Tactic.Positivity
import Mathlib.Tactic.IntervalCases
import Sshx.Fmt

/-! The request a client sends to the local daemon (`pkg/impl/sender.go`). `NewSender` packs the
service code and the operation code into one `int32` as `(imp.Code() << flagLen) | optCode`, and the
daemon reads them back with an arithmetic `>> flagLen` and with `& 0xff`. The shift width `flagLen`
is declared in `impl.go`, which the snapshot lacks, so it is a parameter. When the width is at least
8, the operation code fits in the low byte and the shifted code fits in an `int32`, both reads
return what was packed: the low byte holds only the operation code, and the arithmetic shift restores
the high bits of the code because, the product being representable, they all equal its sign bit.
The condition is exact: when the shifted code does not fit, the shift copies bit `31 - flagLen` over
the high bits and `GetAppCode` returns another code. -/

namespace Sshx.Ipc

/-- The parts of an `Impl` that `NewSender` uses: `Code()` and `PairId()`. It also reads `HostId()`,
but only to log a warning when it is empty. -/
structure Impl where
  code : BitVec 32
  pairId : String

/-- `Sender`. -/
structure Sender where
  type : BitVec 32
  pairId : List UInt8
  detach : Bool
  localEntry : String
  payload : List UInt8
  status : BitVec 32
  deriving DecidableEq, Repr

/-- `NewSender`. The gob encoding of `imp` and the configured `LocalTCPPort` come from
collaborators outside the snapshot and are arguments; a failed encoding returns `nil`. An empty host
id only logs a warning. -/
def newSender (flagLen : Nat) (imp : Impl) (optCode : BitVec 32) (encoded : Option (List UInt8))
    (localTCPPort : BitVec 32) : Option Sender :=
  encoded.map fun payload =>
    { type := (imp.code <<< flagLen) ||| optCode
      pairId := imp.pairId.toUTF8.data.toList
      detach := false
      localEntry := ⟨"127.0.0.1:".toList ++ Fmt.fmtInteger localTCPPort.toInt⟩
      payload := payload
      status := 0 }

/-- `Sender.GetAppCode`: `sender.Type >> flagLen` on an `int32`, an arithmetic shift. -/
def Sender.getAppCode (flagLen : Nat) (sender : Sender) : BitVec 32 :=
  sender.type.sshiftRight flagLen

/-- `Sender.GetOptionCode`: `sender.Type & 0xff`. -/
def Sender.getOptionCode (sender : Sender) : BitVec 32 :=
  sender.type &&& 0xff#32

/-- A value in `[-2^(31-f), 2^(31-f))` has its bits from `31 - f` up all equal to its sign bit. -/
theorem getLsbD_eq_msb_of_toInt_bounds (c : BitVec 32) (f : Nat)
    (hlo : -2 ^ (31 - f) ≤ c.toInt) (hhi : c.toInt < 2 ^ (31 - f)) (i : Nat) (hi : 31 - f ≤ i)
    (hi' : i < 32) : c.getLsbD i = c.msb := by
  have hpow : (2 : Nat) ^ (31 - f) ≤ 2 ^ i := Nat.pow_le_pow_right (by omega) hi
  have hcast : (2 : Int) ^ (31 - f) = ((2 ^ (31 - f) : Nat) : Int) := by push_cast; rfl
  rw [BitVec.toInt_eq_msb_cond] at hlo hhi
  cases hmsb : c.msb with
  | false =>
      simp only [hmsb, Bool.false_eq_true, if_false] at hhi
      exact Nat.testBit_lt_two_pow (by omega)
  | true =>
      simp only [hmsb, if_true] at hlo
      have hn : (~~~c).toNat < 2 ^ (31 - f) := by
        rw [BitVec.toNat_not]
        have := c.isLt
        omega
      have hb : (~~~c).getLsbD i = false := Nat.testBit_lt_two_pow (by omega)
      simpa [BitVec.getLsbD_not, hi'] using hb

theorem getLsbD_of_toNat_lt (o : BitVec 32) (ho : o.toNat < 256) (i : Nat) (hi : 8 ≤ i) :
    o.getLsbD i = false :=
  Nat.testBit_lt_two_pow (lt_of_lt_of_le ho (Nat.pow_le_pow_right (by norm_num : 2 > 0) hi))

/-- The low byte of the packed type is the operation code. -/
theorem packed_optionCode (c o : BitVec 32) (f : Nat) (hf : 8 ≤ f) (ho : o.toNat < 256) :
    ((c <<< f) ||| o) &&& 0xff#32 = o := by
  apply BitVec.eq_of_getLsbD_eq
  intro ⟨i, hi32⟩
  simp only [BitVec.getLsbD_and, BitVec.getLsbD_or, BitVec.getLsbD_shiftLeft, BitVec.getLsbD_ofNat]
  by_cases hi : i < 8
  · have : (255 : Nat).testBit i = true := by interval_cases i <;> rfl
    simp [this, show i < f by omega, hi32]
  · have h255 : (255 : Nat).testBit i = false := getLsbD_of_toNat_lt 255#32 (by decide) i (by omega)
    simp [h255, getLsbD_of_toNat_lt o ho i (by omega)]

/-- The arithmetic shift of the packed type is the service code. -/
theorem packed_appCode (c o : BitVec 32) (f : Nat) (hf : 8 ≤ f) (hf' : f ≤ 31)
    (ho : o.toNat < 256) (hlo : -2 ^ (31 - f) ≤ c.toInt) (hhi : c.toInt < 2 ^ (31 - f)) :
    ((c <<< f) ||| o).sshiftRight f = c := by
  apply BitVec.eq_of_getLsbD_eq
  intro ⟨i, hi⟩
  simp only [BitVec.getLsbD_sshiftRight, BitVec.msb_eq_getLsbD_last, BitVec.getLsbD_or,
    BitVec.getLsbD_shiftLeft, getLsbD_of_toNat_lt o ho _ (show 8 ≤ f + i by omega),
    getLsbD_of_toNat_lt o ho 31 (by omega)]
  split
  · simp [show f + i < 32 by omega, hi]
  · have h1 := getLsbD_eq_msb_of_toInt_bounds c f hlo hhi i (by omega) hi
    have h2 := getLsbD_eq_msb_of_toInt_bounds c f hlo hhi (31 - f) le_rfl (by omega)
    simp [show ¬ 32 ≤ i by omega, show ¬ 31 < f by omega, h1, h2]

/-- `c · 2^f` in the `int32` range bounds `c` by `2^(31-f)`. -/
theorem toInt_bounds_of_representable (c : Int) (f : Nat) (hf : f ≤ 31)
    (hrep : -2 ^ 31 ≤ c * 2 ^ f ∧ c * 2 ^ f < 2 ^ 31) :
    -2 ^ (31 - f) ≤ c ∧ c < 2 ^ (31 - f) := by
  have hsplit : (2 : Int) ^ 31 = 2 ^ (31 - f) * 2 ^ f := by rw [← pow_add, Nat.sub_add_cancel hf]
  have hpos : (0 : Int) < 2 ^ f := by positivity
  rw [hsplit] at hrep
  constructor
  · exact le_of_mul_le_mul_right (by linarith [hrep.1]) hpos
  · exact lt_of_mul_lt_mul_right hrep.2 hpos.le

/-- Conversely, a value whose bits from `31 - f` up all equal its sign bit lies in
`[-2^(31-f), 2^(31-f))`. -/
theorem toInt_bounds_of_getLsbD_eq_msb (c : BitVec 32) (f : Nat)
    (h : ∀ i, 31 - f ≤ i → i < 32 → c.getLsbD i = c.msb) :
    -2 ^ (31 - f) ≤ c.toInt ∧ c.toInt < 2 ^ (31 - f) := by
  have hhigh : ∀ (x : BitVec 32) i, 32 ≤ i → x.toNat.testBit i = false := fun x i hi =>
    Nat.testBit_lt_two_pow (lt_of_lt_of_le x.isLt (Nat.pow_le_pow_right (by norm_num) hi))
  have hcast : (2 : Int) ^ (31 - f) = ((2 ^ (31 - f) : Nat) : Int) := by push_cast; rfl
  rw [BitVec.toInt_eq_msb_cond, hcast]
  cases hmsb : c.msb with
  | false =>
      have hlt : c.toNat < 2 ^ (31 - f) := Nat.lt_pow_two_of_testBit _ fun i hi => by
        by_cases hi' : i < 32
        · simpa [hmsb] using h i hi hi'
        · exact hhigh c i (by omega)
      simp only [Bool.false_eq_true, if_false]
      omega
  | true =>
      have hlt : (~~~c).toNat < 2 ^ (31 - f) := Nat.lt_pow_two_of_testBit _ fun i hi => by
        by_cases hi' : i < 32
        · show (~~~c).getLsbD i = false
          simp [BitVec.getLsbD_not, hi', h i hi hi', hmsb]
        · exact hhigh _ i (by omega)
      rw [BitVec.toNat_not] at hlt
      have := c.isLt
      simp only [if_true]
      omega

/-- If the arithmetic shift gives the code back, the code's bits from `31 - f` up all equal its sign
bit: each of them is a copy of bit `31 - f`, which the shift moved to the top. -/
theorem getLsbD_eq_msb_of_packed_appCode (c o : BitVec 32) (f : Nat) (hf : 8 ≤ f) (hf' : f ≤ 31)
    (ho : o.toNat < 256) (h : ((c <<< f) ||| o).sshiftRight f = c) (i : Nat) (hi : 31 - f ≤ i)
    (hi' : i < 32) : c.getLsbD i = c.msb := by
  have hcopy : ∀ j, 32 - f ≤ j → j < 32 → c.getLsbD j = c.getLsbD (31 - f) := fun j hj hj' => by
    have := congrArg (fun x => x.getLsbD j) h
    simp only [BitVec.getLsbD_sshiftRight, BitVec.msb_eq_getLsbD_last, BitVec.getLsbD_or,
      BitVec.getLsbD_shiftLeft, getLsbD_of_toNat_lt o ho 31 (by omega)] at this
    simpa [show ¬ 32 ≤ j by omega, show ¬ f + j < 32 by omega, show ¬ 31 < f by omega] using
      this.symm
  rw [BitVec.msb_eq_getLsbD_last, hcopy 31 (by omega) (by omega)]
  rcases (show i = 31 - f ∨ 32 - f ≤ i by omega) with rfl | hi
  · rfl
  · exact hcopy i hi hi'

theorem newSender_codes (flagLen : Nat) (hlen : 8 ≤ flagLen ∧ flagLen ≤ 31) (imp : Impl)
    (optCode : BitVec 32) (hopt : 0 ≤ optCode.toInt ∧ optCode.toInt < 256)
    (hrep : -2 ^ 31 ≤ imp.code.toInt * 2 ^ flagLen ∧ imp.code.toInt * 2 ^ flagLen < 2 ^ 31)
    (encoded : Option (List UInt8)) (localTCPPort : BitVec 32) (s : Sender)
    (hs : newSender flagLen imp optCode encoded localTCPPort = some s) :
    s.getAppCode flagLen = imp.code ∧ s.getOptionCode = optCode := by
  obtain ⟨payload, -, rfl⟩ := Option.map_eq_some'.mp hs
  have ho : optCode.toNat < 256 := by
    rw [BitVec.toInt_eq_toNat_cond] at hopt
    split at hopt <;> omega
  obtain ⟨hlo, hhi⟩ := toInt_bounds_of_representable _ _ hlen.2 hrep
  exact ⟨packed_appCode _ _ _ hlen.1 hlen.2 ho hlo hhi, packed_optionCode _ _ _ hlen.1 ho⟩

theorem newSender_codes_proxy_up :
    ∃ s, newSender 8 ⟨4, "pair"⟩ 0 (some []) 2224 = some s ∧
      s.getAppCode 8 = 4 ∧ s.getOptionCode = 0 :=
  ⟨_, rfl, newSender_codes 8 (by decide) ⟨4, "pair"⟩ 0 (by decide) (by decide) (some []) 2224
    _ rfl⟩

/-- **The service code comes back exactly when the shifted code fits in an `int32`**: for a code
that does not fit, `GetAppCode` returns another code. -/
theorem newSender_appCode_iff (flagLen : Nat) (hlen : 8 ≤ flagLen ∧ flagLen ≤ 31) (imp : Impl)
    (optCode : BitVec 32) (hopt : 0 ≤ optCode.toInt ∧ optCode.toInt < 256)
    (encoded : Option (List UInt8)) (localTCPPort : BitVec 32) (s : Sender)
    (hs : newSender flagLen imp optCode encoded localTCPPort = some s) :
    s.getAppCode flagLen = imp.code ↔
      -2 ^ 31 ≤ imp.code.toInt * 2 ^ flagLen ∧ imp.code.toInt * 2 ^ flagLen < 2 ^ 31 := by
  obtain ⟨payload, -, rfl⟩ := Option.map_eq_some'.mp hs
  have ho : optCode.toNat < 256 := by
    rw [BitVec.toInt_eq_toNat_cond] at hopt
    split at hopt <;> omega
  have hsplit : (2 : Int) ^ 31 = 2 ^ (31 - flagLen) * 2 ^ flagLen := by
    rw [← pow_add, Nat.sub_add_cancel hlen.2]
  constructor
  · intro h
    obtain ⟨hlo, hhi⟩ := toInt_bounds_of_getLsbD_eq_msb imp.code flagLen
      (getLsbD_eq_msb_of_packed_appCode _ _ _ hlen.1 hlen.2 ho h)
    have hpos : (0 : Int) < 2 ^ flagLen := by positivity
    rw [hsplit]
    constructor
    · linarith [mul_le_mul_of_nonneg_right hlo hpos.le]
    · exact mul_lt_mul_of_pos_right hhi hpos
  · intro hrep
    obtain ⟨hlo, hhi⟩ := toInt_bounds_of_representable _ _ hlen.2 hrep
    exact packed_appCode _ _ _ hlen.1 hlen.2 ho hlo hhi

theorem newSender_appCode_iff_wide_code :
    ∃ s, newSender 8 ⟨0x1000000, "pair"⟩ 0 (some []) 2224 = some s ∧
      (s.getAppCode 8 = 0x1000000 ↔
        -2 ^ 31 ≤ (0x1000000 : BitVec 32).toInt * 2 ^ 8 ∧
          (0x1000000 : BitVec 32).toInt * 2 ^ 8 < 2 ^ 31) :=
  ⟨_, rfl, newSender_appCode_iff 8 (by decide) ⟨0x1000000, "pair"⟩ 0 (by decide) (some [])
    2224 _ rfl⟩

end Sshx.Ipc
