import Mathlib.Data.List.Infix
import Mathlib.Data.List.Basic
import Sshx.Fmt

/-! `ClearKnownHosts` (`pkg/conf`), which `NewConfManager` calls with `127.0.0.1:<LocalSSHPort>` to
drop stale host keys of the local daemon. It brackets the address to `[127.0.0.1]:<port>`, splits
the file at newlines, drops every line that contains the bracketed text anywhere, and joins the rest
with newlines. The filter is a substring test, not a match on the host-pattern field: with port 22
it also drops the line of `[127.0.0.1]:2222`, and any comment that mentions the target. What it
keeps, it keeps unchanged and in order: splitting the written file at newlines gives back exactly
the kept lines. Text is a list of characters; `Split`, `Join` and `Contains` on the file's bytes
behave the same way on an ASCII target. -/

namespace Sshx.Conf

open Fmt

/-- `strings.Replace(s, old, new, 1)`: the first occurrence of `old` replaced by `new`. -/
def replaceFirst (old new s : List Char) : List Char :=
  if old.isPrefixOf s then new ++ s.drop old.length else
    match s with
    | [] => []
    | c :: s => c :: replaceFirst old new s

/-- `strings.Contains(s, substr)`. -/
def contains (s substr : List Char) : Bool :=
  decide (substr <:+: s)

/-- `ClearKnownHosts` on the content of `$HOME/.ssh/known_hosts`: `none` when the read fails and
nothing is written, otherwise the content written back. -/
def clearKnownHosts (subStr : List Char) (input : Option (List Char)) : Option (List Char) :=
  input.map fun content =>
    let subStr := replaceFirst "127.0.0.1".toList "[127.0.0.1]".toList subStr
    ['\n'].intercalate ((content.splitOn '\n').filter fun line => !contains line subStr)

/-- The argument of the call in `NewConfManager`: `fmt.Sprintf("127.0.0.1:%d", tmp.LocalSSHPort)`. -/
def sshEntry (localSSHPort : BitVec 32) : List Char :=
  "127.0.0.1:".toList ++ fmtInteger localSSHPort.toInt

/-- The text the filter looks for once the address is bracketed. -/
def bracketedEntry (localSSHPort : BitVec 32) : List Char :=
  "[127.0.0.1]:".toList ++ fmtInteger localSSHPort.toInt

theorem replaceFirst_append (old new rest : List Char) :
    replaceFirst old new (old ++ rest) = new ++ rest := by
  unfold replaceFirst
  rw [if_pos (List.isPrefixOf_iff_prefix.mpr (List.prefix_append _ _)), List.drop_left]

theorem replaceFirst_sshEntry (port : BitVec 32) :
    replaceFirst "127.0.0.1".toList "[127.0.0.1]".toList (sshEntry port) = bracketedEntry port :=
  replaceFirst_append "127.0.0.1".toList _ (':' :: fmtInteger port.toInt)

/-- No piece of a split holds the separator. -/
theorem not_mem_of_mem_splitOn (x : Char) (xs : List Char) :
    ∀ l ∈ xs.splitOn x, x ∉ l := by
  induction xs with
  | nil => simp
  | cons a t ih =>
      simp only [List.splitOn, List.splitOnP_cons] at ih ⊢
      split
      · rintro l (_ | ⟨_, hl⟩)
        · simp
        · exact ih l hl
      · rename_i ha
        cases h : t.splitOnP (· == x) with
        | nil => simp
        | cons hd tl =>
            rw [h] at ih
            rintro l (_ | ⟨_, hl⟩)
            · simp only [List.mem_cons, not_or]
              exact ⟨fun hx => ha (by simp [hx]), ih hd (List.mem_cons_self _ _)⟩
            · exact ih l (List.mem_cons_of_mem _ hl)

/-- Splitting the written content at newlines gives back exactly the lines the filter kept. -/
theorem splitOn_intercalate_filter (content : List Char) (p : List Char → Bool)
    (hne : (content.splitOn '\n').filter p ≠ []) :
    (['\n'].intercalate ((content.splitOn '\n').filter p)).splitOn '\n' =
      (content.splitOn '\n').filter p :=
  List.splitOn_intercalate _ _ (fun l hl => not_mem_of_mem_splitOn '\n' content l
    (List.mem_of_mem_filter hl)) hne

theorem clearKnownHosts_keeps_unmatched_lines (content : List Char) (port : BitVec 32) :
    ∃ out, clearKnownHosts (sshEntry port) (some content) = some out ∧
      (out.splitOn '\n' =
          (content.splitOn '\n').filter (fun line => !contains line (bracketedEntry port)) ∨
        out = [] ∧ ∀ line ∈ content.splitOn '\n', contains line (bracketedEntry port)) := by
  refine ⟨_, rfl, ?_⟩
  simp only [replaceFirst_sshEntry]
  by_cases hne : (content.splitOn '\n').filter (fun line => !contains line (bracketedEntry port)) = []
  · right
    rw [hne]
    refine ⟨rfl, fun line hl => ?_⟩
    simpa using List.filter_eq_nil_iff.mp hne line hl
  · exact .inl (splitOn_intercalate_filter _ _ hne)

/-- **A second call changes nothing.** `NewConfManager` runs it at every start; the file the first
call writes has no line left to drop, and joining and splitting it again gives it back. -/
theorem clearKnownHosts_idempotent (subStr : List Char) (input : Option (List Char)) :
    clearKnownHosts subStr (clearKnownHosts subStr input) = clearKnownHosts subStr input := by
  cases input with
  | none => rfl
  | some content =>
      simp only [clearKnownHosts, Option.map_some']
      generalize (fun line => !contains line (replaceFirst "127.0.0.1".toList
        "[127.0.0.1]".toList subStr)) = keep
      by_cases hne : (content.splitOn '\n').filter keep = []
      · rw [hne]
        show some (['\n'].intercalate ([[]].filter keep)) = some []
        cases h : keep [] <;> simp only [List.filter_cons, h] <;> rfl
      · simp only [splitOn_intercalate_filter _ _ hne, List.filter_filter, Bool.and_self]

/-- The host-pattern field of a `known_hosts` line: its first whitespace-separated token, split on
commas. -/
def hostPatterns (line : List Char) : List (List Char) :=
  ((line.dropWhile Char.isWhitespace).takeWhile fun c => !c.isWhitespace).splitOn ','

/-- With port 22 the line of `[127.0.0.1]:2222` is dropped, though its host field does not name
`[127.0.0.1]:22`. -/
theorem clearKnownHosts_drops_port_2222 :
    clearKnownHosts (sshEntry 22) (some "[127.0.0.1]:2222 ssh-ed25519 AAAA".toList) = some [] ∧
      bracketedEntry 22 ∉ hostPatterns "[127.0.0.1]:2222 ssh-ed25519 AAAA".toList := by
  decide

end Sshx.Conf
