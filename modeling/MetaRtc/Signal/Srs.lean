import MetaRtc.Lib.JsonText
import MetaRtc.Sdp.Strings

/-! # The answer of an SRS server

The text of a JSON object is taken apart at its commas once the braces are deleted. -/
namespace MetaRtc

open Exec Bytes Tokens Occurrences

def yangSdpBufferlen : Nat := 1024 * 12

def comma : UInt8 := 44
def quote : UInt8 := 34
def backslash : UInt8 := 92

structure SrsSdpResponse where
  retcode : Int32 := 0
  serverIp : Option CStr := none
  sessionid : Option CStr := none
  sdp : Option CStr := none
  deriving DecidableEq

/-- `yang_cstr_replace` to a new array of zeros, which is read as a string afterwards. -/
def replaceTo (size : Nat) (str macth rep : CStr) : Call CStr := do
  let dst ← yangCstrReplace str macth rep ⟨fun _ => 0, size⟩
  readTo size ((dst.data.slice 0 size).takeWhile (· ≠ 0))

inductive SrsKey where
  | code | server | sessionid | sdp
  deriving DecidableEq

def SrsKey.name : SrsKey → CStr
  | code => lit "code"
  | server => lit "server"
  | sessionid => lit "sessionid"
  | sdp => lit "sdp"

/-- What is searched for. -/
def SrsKey.word (key : SrsKey) : CStr := quote :: (key.name ++ [quote, colon])

/-- What stands behind the key, without its quotes. -/
def srsValue (key : SrsKey) (str : CStr) (p : Nat) : Call CStr :=
  replaceTo ((str.drop p).length + 1) ((str.drop p).drop key.word.length) [quote] []

def srsLoop : List CStr → SrsSdpResponse → Call (Int32 × SrsSdpResponse)
  | [], srs => .ret (0, srs)
  | str :: strs, srs =>
    match find SrsKey.code.word str with
    | some p => do
      let retcode := atoi (← srsValue .code str p)
      let srs := { srs with retcode }
      if retcode ≠ 0 then return (retcode, srs) else srsLoop strs srs
    | none =>
      match find SrsKey.server.word str with
      | some p => do
        let serverIp ← srsValue .server str p
        srsLoop strs { srs with serverIp := some serverIp }
      | none =>
        match find SrsKey.sessionid.word str with
        | some p => do
          let sessionid ← srsValue .sessionid str p
          srsLoop strs { srs with sessionid := some sessionid }
        | none =>
          match find SrsKey.sdp.word str with
          | some p => do
            let sdp ← srsValue .sdp str p
            srsLoop strs { srs with sdp := some sdp }
          | none => srsLoop strs srs

/-- `posted` is what `yang_http_post` has left in the buffer, the head and the body, unless it
failed. -/
def yangSdpQuerySrs (posted : Option CStr) (srs : SrsSdpResponse) :
    Call (Int32 × SrsSdpResponse) :=
  match posted with
  | none => .ret (1, srs)
  | some response => do
    let sdp ← readTo yangSdpBufferlen response
    let sdp ← replaceTo yangSdpBufferlen sdp (lit "\x7b") []
    let sdp ← replaceTo yangSdpBufferlen sdp (lit "\x7d") []
    let sBuffer ← replaceTo yangSdpBufferlen sdp (lit "\\r\\n") [LF]
    srsLoop (cstrSplit sBuffer comma) srs

section Replace

variable {str macth rep : CStr} {size : Nat}

theorem placed_of_short {ps : List CStr} {n : Nat} (h : n + ps.flatten.length < 2 ^ 31) :
    Placed n ps := by
  induction ps generalizing n with
  | nil => trivial
  | cons p ps ih =>
    rw [List.flatten_cons, List.length_append] at h
    exact ⟨fun _ => by omega, ih (by omega)⟩

theorem fits_of_short (hm : macth ≠ []) (hstr : str.length < 2 ^ 31) (hrep : rep.length < 2 ^ 31)
    (hout : (replaceAll macth rep str).length < 2 ^ 31) : ReplaceFits str macth rep := by
  intro p hp
  have hin := find_le hm hp
  rw [replaceAll_length hm hp] at hout
  exact ⟨by omega, hrep, by omega, placed_of_short hout⟩

/-- For the strings of an answer the replacement does what it is meant to do. -/
theorem replaceTo_eq (hm : macth ≠ []) (hsize : size ≤ 2 ^ 31) (hstr : str.length < size)
    (hrep : rep.length < size) (hout : (replaceAll macth rep str).length < size)
    (hnul : (0 : UInt8) ∉ str) (hnul' : (0 : UInt8) ∉ rep) :
    replaceTo size str macth rep = .ret (replaceAll macth rep str) := by
  have hfits := @fits_of_short str macth rep hm (by omega) (by omega) (by omega)
  have hzero : ZeroFrom ⟨fun _ => 0, size⟩ 0 := fun _ _ _ => rfl
  obtain ⟨d, hret, hslice⟩ := replaces_of_fits hm hzero hout hfits
  have hnul'' : ∀ b ∈ replaceAll macth rep str, decide (b ≠ 0) = true := by
    intro b hb
    apply decide_eq_true
    rintro rfl
    exact (mem_replaceAll hb).elim hnul hnul'
  obtain ⟨k, rfl⟩ := Nat.exists_eq_add_of_le (Nat.succ_le_of_lt hout)
  have hread : (d.data.slice 0 ((replaceAll macth rep str).length + 1 + k)).takeWhile (· ≠ 0) =
      replaceAll macth rep str := by
    rw [Mem.slice_append, hslice, List.append_assoc, List.takeWhile_append_of_pos hnul'']
    simp
  rw [replaceTo, hret, Call.ret_bind, hread, readTo, strcpy, if_pos hout]

end Replace

end MetaRtc
