import Sshx.Fmt

/-! The shared records of `pkg/types`: the pool identifier with its text, and the signaling envelope
that the rendezvous mailbox carries. `PoolId.String` writes `conn_` and then the implementation
code, the value and the direction it is given, separated by `_`. Each number is rendered by `%d`,
which never writes a `_`, so splitting the text at `_` gives the four fields back: the text
determines the code, the value and the direction over the whole `int32 × int64 × int32` range. -/

namespace Sshx.Types

open Fmt

/-- `PoolId`: `Value int64`, `Direction int32`, `ImplCode int32`. -/
structure PoolId where
  value : BitVec 64
  direction : BitVec 32
  implCode : BitVec 32
  deriving DecidableEq, Repr

/-- `PoolId.String`: `fmt.Sprintf("conn_%d_%d_%d", pd.ImplCode, pd.Value, direct)`. -/
def PoolId.string (pd : PoolId) (direct : BitVec 32) : String :=
  ⟨"conn_".toList ++ fmtInteger pd.implCode.toInt ++ '_' :: fmtInteger pd.value.toInt ++
    '_' :: fmtInteger direct.toInt⟩

/-- `SignalingInfo`; `Flag` is a Go `int`, 64 bits wide on the daemon's platforms. -/
structure SignalingInfo where
  flag : BitVec 64
  source : String
  sdp : String
  candidate : List UInt8
  id : PoolId
  target : String
  peerType : BitVec 32
  remoteRequestType : BitVec 32
  deriving DecidableEq, Repr

/-- The zero value of `SignalingInfo`, which a receive from a closed, drained channel yields. -/
def SignalingInfo.zero : SignalingInfo :=
  ⟨0, "", "", [], ⟨0, 0, 0⟩, "", 0, 0⟩

/-- The text is the `_`-join of the literal `conn` and the three renderings. -/
theorem PoolId.string_data (pd : PoolId) (direct : BitVec 32) :
    (pd.string direct).data = ['_'].intercalate
      ["conn".toList, fmtInteger pd.implCode.toInt, fmtInteger pd.value.toInt,
        fmtInteger direct.toInt] := by
  simp [PoolId.string, List.intercalate]

theorem underscore_not_mem_fmtInteger (i : Int) : '_' ∉ fmtInteger i := fun h => by
  rcases mem_fmtInteger h with h | h <;> simp at h

/-- Splitting the text at `_` recovers its four fields. -/
theorem PoolId.string_splitOn (pd : PoolId) (direct : BitVec 32) :
    (pd.string direct).data.splitOn '_' =
      ["conn".toList, fmtInteger pd.implCode.toInt, fmtInteger pd.value.toInt,
        fmtInteger direct.toInt] := by
  rw [PoolId.string_data, List.splitOn_intercalate]
  · simp [underscore_not_mem_fmtInteger]
  · simp

theorem poolId_string_injective {p q : PoolId} {d e : BitVec 32} (h : p.string d = q.string e) :
    p.implCode = q.implCode ∧ p.value = q.value ∧ d = e := by
  have hs := congrArg (fun s : String => s.data.splitOn '_') h
  simp only [PoolId.string_splitOn, List.cons.injEq, and_true, true_and] at hs
  obtain ⟨hc, hv, hd⟩ := hs
  exact ⟨BitVec.toInt_inj.mp (fmtInteger_injective hc), BitVec.toInt_inj.mp (fmtInteger_injective hv),
    BitVec.toInt_inj.mp (fmtInteger_injective hd)⟩

/-- Two pool ids that differ only in `Direction`, which `String` does not print. -/
theorem poolId_string_injective_directions :
    (PoolId.mk 1000 5 4).string 1 = (PoolId.mk 1000 7 4).string 1 ∧
      (PoolId.mk 1000 5 4).implCode = (PoolId.mk 1000 7 4).implCode ∧
      (PoolId.mk 1000 5 4).value = (PoolId.mk 1000 7 4).value ∧ (1 : BitVec 32) = 1 := by
  have h : (PoolId.mk 1000 5 4).string 1 = (PoolId.mk 1000 7 4).string 1 := by decide
  exact ⟨h, poolId_string_injective h⟩

end Sshx.Types
