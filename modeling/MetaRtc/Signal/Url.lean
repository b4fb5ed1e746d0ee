import MetaRtc.Sdp.Strings

/-! # The URL of a stream

`scheme://host[:port]/app/stream`. The parts are copied to fields of a record by lengths that are
held as `int32_t` and, but for the host's, compared with nothing. -/
namespace MetaRtc

open Exec Tokens Occurrences

def yangRtmp : Nat := 0
def yangWebrtc : Nat := 2

/-- An array of zeros with bytes copied to its beginning. -/
structure Field (size : Nat) where
  bytes : CStr := []
  fits : bytes.length ≤ size := by decide
  deriving DecidableEq

/-- The field is read up to a NUL inside it. -/
def Field.Reads {size : Nat} (f : Field size) (s : CStr) : Prop := f.bytes = s ∧ s.length < size

/-- `memcpy` to an array that is zero. -/
def Field.memcpy (size : Nat) (bs : CStr) : Call (Field size) :=
  if h : bs.length ≤ size then .ret ⟨bs, h⟩ else .crash

/-- `strcpy`, with the NUL. -/
def Field.strcpy (size : Nat) (s : CStr) : Call (Field size) :=
  if h : s.length < size then .ret ⟨s, Nat.le_of_lt h⟩ else .crash

structure YangUrlData where
  netType : Nat := 0
  port : Int32 := 0
  server : Field 30 := {}
  app : Field 20 := {}
  stream : Field 128 := {}
  deriving DecidableEq

section Code

-- `yang_getIp`, which leaves a name as it is where it cannot be resolved
variable (getIp : CStr → CStr)

/-- What stands behind the scheme, with the net type and the port that go with that. -/
def urlScheme (url : CStr) : Option (Nat × Int32 × CStr) :=
  match find (lit "://") url with
  | none => none
  | some k =>
    let len := Int32.ofNat k
    if len = 4 ∧ url.take 4 = lit "rtmp" then some (yangRtmp, 1935, url.drop (k + 3))
    else if len = 6 ∧ url.take 6 = lit "webrtc" then some (yangWebrtc, 1985, url.drop (k + 3))
    else none

def urlHostlen (p : CStr) : Int32 :=
  let hostlen := match cut slash p with
    | some (before, _) => Int32.ofNat before.length
    | none => .ofNat p.length
  match cut colon p with
  | some (before, _) =>
    if (before.length : Int) < hostlen.toInt then .ofNat before.length else hostlen
  | none => hostlen

/-- A name of 256 bytes or more is passed over. A negative length is a size no array has. -/
def urlServer (p : CStr) (data : YangUrlData) : Call YangUrlData :=
  let hostlen := (urlHostlen p).toInt
  if hostlen < 256 then
    if hostlen < 0 then .crash
    else do
      return { data with server := ← Field.strcpy 30 (getIp (p.take hostlen.toNat)) }
  else .ret data

def urlPort (p : CStr) (data : YangUrlData) : YangUrlData :=
  match p with
  | [] => data
  | b :: p =>
    if b = colon then
      let p2 := (atoi p).toUInt32
      if p2 > 65535 then data else { data with port := p2.toInt32 }
    else data

/-- Up to three segments are taken for the application, as long as another one follows. -/
def urlAppnamelen (p : CStr) : Nat :=
  match cut slash p with
  | none => p.length
  | some (a, p₂) =>
    match cut slash p₂ with
    | none => a.length
    | some (b, p₃) =>
      match cut slash p₃ with
      | none => a.length + 1 + b.length
      | some (c, _) => a.length + 1 + b.length + 1 + c.length

def skipSlash (p : CStr) : CStr :=
  match p with
  | [] => []
  | b :: rest => if b = slash then rest else b :: rest

/-- A stream without characters leaves the field as it is. -/
def urlStream (p : CStr) (data : YangUrlData) : Call YangUrlData :=
  if p = [] then .ret data
  else do
    return { data with stream := ← Field.memcpy 128 p }

def urlPath (p : CStr) (data : YangUrlData) : Call YangUrlData :=
  let applen := (Int32.ofNat (urlAppnamelen p)).toInt
  if applen < 0 then .crash
  else do
    let data := { data with app := ← Field.memcpy 20 (p.take applen.toNat) }
    urlStream (skipSlash (p.drop applen.toNat)) data

def yangUrlParse (url : CStr) (data : YangUrlData) : Call (Err × YangUrlData) :=
  match urlScheme url with
  | none => .ret (1, data)
  | some (netType, port, p) =>
    let data := { data with netType, port }
    if p = [] then .ret (1, data)
    else do
      let data ← urlServer getIp p data
      let data := urlPort (p.drop (urlHostlen p).toInt.toNat) data
      match cut slash p with
      | none => return (yangOk, data)
      | some (_, p) => return (yangOk, ← urlPath p data)

end Code

section Span

variable {p : CStr} {c : UInt8}

/-- The length of the host, as it is held: up to the first slash, or to a colon before that. -/
def hostSpan (p : CStr) : Int :=
  min ((upTo colon p).length : Int) (Int32.ofNat (upTo slash p).length).toInt

theorem urlHostlen_toInt (p : CStr) : (urlHostlen p).toInt = hostSpan p := by
  have hslash : (match cut slash p with
      | some (before, _) => Int32.ofNat before.length
      | none => .ofNat p.length) = .ofNat (upTo slash p).length := by
    split
    · rename_i h
      rw [upTo_cut h]
    · rename_i h
      rw [upTo_free (cut_eq_none.mp h)]
  have hle : ∀ n : Nat, (Int32.ofNat n).toInt ≤ n := by
    intro n
    by_cases hn : n < 2 ^ 31
    · exact Int.le_of_eq (held_eq hn)
    · have := held_le (Nat.le_of_not_lt hn)
      omega
  have hmax := (Int32.ofNat (upTo slash p).length).toInt_lt
  unfold urlHostlen hostSpan
  rw [hslash]
  dsimp only
  split
  · rename_i before _ h
    rw [upTo_cut h]
    split
    · rename_i hlt
      have hheld : (Int32.ofNat before.length).toInt = before.length := held_eq (by omega)
      omega
    · omega
  · rename_i h
    rw [upTo_free (cut_eq_none.mp h)]
    have hlen : (upTo slash p).length ≤ p.length := (List.takeWhile_prefix _).length_le
    have := hle (upTo slash p).length
    omega

end Span

section Parts

inductive UrlScheme where
  | rtmp | webrtc

namespace UrlScheme

def name : UrlScheme → CStr
  | rtmp => lit "rtmp"
  | webrtc => lit "webrtc"

def netType : UrlScheme → Nat
  | rtmp => yangRtmp
  | webrtc => yangWebrtc

def port : UrlScheme → Nat
  | rtmp => 1935
  | webrtc => 1985

end UrlScheme

/-- The parts of a URL, none of which has a separator in it. -/
structure UrlParts where
  scheme : UrlScheme
  host : CStr
  port : Option Nat
  app : CStr
  stream : CStr
  plain : ∀ s ∈ [host, app, stream], slash ∉ s ∧ colon ∉ s
  portIn : ∀ n ∈ port, 1 ≤ n ∧ n ≤ 65535

namespace UrlParts

variable (u : UrlParts)

def portText : CStr :=
  match u.port with
  | none => []
  | some n => colon :: decimal n

def path : CStr := u.app ++ slash :: u.stream

def behind : CStr := u.host ++ (u.portText ++ slash :: u.path)

def text : CStr := u.scheme.name ++ (lit "://" ++ u.behind)

/-- The parse gives the parts, each in its field. -/
def Parsed (data : YangUrlData) : Prop :=
  ∃ data', yangUrlParse id u.text data = .ret (yangOk, data') ∧
    data'.netType = u.scheme.netType ∧ data'.port = .ofNat (u.port.getD u.scheme.port) ∧
    data'.server.Reads u.host ∧ data'.app.Reads u.app ∧ data'.stream.Reads u.stream

/-- Each part leaves its field room for a NUL, and a stream without characters finds an empty
field. -/
structure Fits (data : YangUrlData) : Prop where
  host : u.host.length < 30
  app : u.app.length < 20
  stream : u.stream.length < 128
  empty : u.stream = [] → data.stream.bytes = []

theorem urlScheme_text : urlScheme u.text =
    some (u.scheme.netType, .ofNat u.scheme.port, u.behind) := by
  unfold text
  cases u.scheme with
  | rtmp => rfl
  | webrtc => rfl

theorem behind_ne_nil : u.behind ≠ [] := by
  unfold behind
  simp

theorem slash_portText : slash ∉ u.portText := by
  unfold portText
  split
  · exact List.not_mem_nil
  · rename_i n _
    intro hmem
    rcases List.mem_cons.mp hmem with h | h
    · exact absurd h (by decide)
    · exact absurd (decimal_digits n slash h) (by decide)

theorem cut_behind : cut slash u.behind = some (u.host ++ u.portText, u.path) := by
  apply cut_eq_some.mpr
  refine ⟨by simp [behind], ?_⟩
  intro hmem
  rcases List.mem_append.mp hmem with h | h
  · exact (u.plain u.host (by simp)).1 h
  · exact u.slash_portText h

theorem portText_length : u.portText.length ≤ 6 := by
  unfold portText
  split
  · exact Nat.zero_le _
  · rename_i n hport
    have hn := (u.portIn n hport).2
    have hlen : (Nat.toDigits 10 n).length ≤ 5 :=
      (Nat.length_toDigits_le_iff (by decide) (by decide)).mpr (by omega)
    rw [decimal, List.length_cons, List.length_map]
    omega

theorem hostlen_text (h : u.host.length < 30) :
    (urlHostlen u.behind).toInt = u.host.length := by
  have hport := u.portText_length
  have hslash : (upTo slash u.behind).length = u.host.length + u.portText.length := by
    rw [upTo_cut u.cut_behind, List.length_append]
  have hheld : (Int32.ofNat (upTo slash u.behind).length).toInt = (upTo slash u.behind).length :=
    held_eq (by omega)
  have hhost := (u.plain u.host (by simp)).2
  rw [urlHostlen_toInt, hostSpan, hheld, hslash]
  cases hp : u.port with
  | some n =>
    have hcolon : upTo colon u.behind = u.host := by
      unfold behind portText
      rw [hp]
      exact upTo_sep hhost
    rw [hcolon]
    omega
  | none =>
    have hempty : u.portText = [] := by simp [portText, hp]
    have hpath : colon ∉ u.path := by
      simp only [path, List.mem_append, List.mem_cons, not_or]
      exact ⟨(u.plain u.app (by simp)).2, by decide, (u.plain u.stream (by simp)).2⟩
    have hfree : colon ∉ u.behind := by
      simp only [behind, hempty, List.nil_append, List.mem_append, List.mem_cons, not_or]
      exact ⟨hhost, by decide, hpath⟩
    rw [upTo_free hfree, hempty]
    simp only [behind, List.length_append, List.length_nil]
    omega

theorem port_text (data : YangUrlData) : urlPort (u.portText ++ slash :: u.path) data =
    { data with port := (u.port.map Int32.ofNat).getD data.port } := by
  unfold portText
  cases hp : u.port with
  | none => rfl
  | some n =>
    have hn := (u.portIn n hp).2
    have hnil : ∀ b ∈ ([] : CStr), isspace b = true := by simp
    have hatoi : atoi (decimal n ++ slash :: u.path) = .ofNat n :=
      atoi_decimal hnil (fun b hb => by obtain rfl := Option.some.inj hb; decide) (by omega)
    have hval : (Int32.ofNat n).toUInt32.toNat = n :=
      UInt32.toNat_ofNat_of_lt (Nat.lt_of_le_of_lt hn (by decide))
    simp only [List.cons_append, urlPort, if_true, hatoi]
    rw [if_neg (by rw [gt_iff_lt, UInt32.lt_iff_toNat_lt, hval]; simpa using hn)]
    rfl

theorem appnamelen_path : urlAppnamelen u.path = u.app.length := by
  have hfirst : cut slash u.path = some (u.app, u.stream) :=
    cut_eq_some.mpr ⟨rfl, (u.plain u.app (by simp)).1⟩
  have hsecond : cut slash u.stream = none := cut_eq_none.mpr (u.plain u.stream (by simp)).1
  simp only [urlAppnamelen, hfirst, hsecond]

theorem path_text (data : YangUrlData) (happ : u.app.length < 20) (hstream : u.stream.length < 128) :
    ∃ app stream, urlPath u.path data = .ret { data with app, stream } ∧ app.bytes = u.app ∧
      stream.bytes = if u.stream = [] then data.stream.bytes else u.stream := by
  have hheld : (Int32.ofNat u.app.length).toInt = u.app.length := held_eq (by omega)
  have htake : u.path.take u.app.length = u.app := List.take_left' rfl
  have hdrop : skipSlash (u.path.drop u.app.length) = u.stream := by
    rw [path, List.drop_left' rfl]
    rfl
  have happ' : Field.memcpy 20 u.app = .ret ⟨u.app, Nat.le_of_lt happ⟩ :=
    dif_pos (Nat.le_of_lt happ)
  have hstream' : Field.memcpy 128 u.stream = .ret ⟨u.stream, Nat.le_of_lt hstream⟩ :=
    dif_pos (Nat.le_of_lt hstream)
  have hsign : ¬(u.app.length : Int) < 0 := by omega
  simp only [urlPath, u.appnamelen_path, hheld, if_neg hsign, Int.toNat_natCast, htake, happ',
    hdrop, Call.ret_bind, urlStream]
  by_cases hempty : u.stream = []
  · simp only [if_pos hempty]
    exact ⟨_, _, rfl, rfl, rfl⟩
  · simp only [if_neg hempty, hstream', Call.ret_bind]
    exact ⟨_, _, rfl, rfl, rfl⟩

theorem server_text (data : YangUrlData) (h : u.host.length < 30) :
    urlServer id u.behind data = .ret { data with server := ⟨u.host, Nat.le_of_lt h⟩ } := by
  have htake : u.behind.take u.host.length = u.host := List.take_left' rfl
  have hcopy : Field.strcpy 30 u.host = .ret ⟨u.host, Nat.le_of_lt h⟩ := dif_pos h
  simp only [urlServer, u.hostlen_text h, Int.toNat_natCast, htake, id, hcopy]
  rw [if_pos (by omega), if_neg (by omega)]
  rfl

/-- What the parse of a text whose parts fit comes to. -/
theorem parse_text (data : YangUrlData) (hhost : u.host.length < 30) (happ : u.app.length < 20)
    (hstream : u.stream.length < 128) :
    ∃ data', yangUrlParse id u.text data = .ret (yangOk, data') ∧
      data'.netType = u.scheme.netType ∧ data'.port = .ofNat (u.port.getD u.scheme.port) ∧
      data'.server.bytes = u.host ∧ data'.app.bytes = u.app ∧
      data'.stream.bytes = if u.stream = [] then data.stream.bytes else u.stream := by
  have hdrop : u.behind.drop u.host.length = u.portText ++ slash :: u.path := List.drop_left' rfl
  simp only [yangUrlParse, u.urlScheme_text, if_neg u.behind_ne_nil, u.server_text _ hhost,
    Call.ret_bind, u.hostlen_text hhost, Int.toNat_natCast, hdrop, u.port_text, u.cut_behind]
  obtain ⟨app, stream, hpath, happ', hstream'⟩ := u.path_text
    { data with
      netType := u.scheme.netType
      port := (u.port.map Int32.ofNat).getD (.ofNat u.scheme.port)
      server := ⟨u.host, Nat.le_of_lt hhost⟩ } happ hstream
  refine ⟨_, by rw [hpath]; rfl, rfl, ?_, rfl, happ', hstream'⟩
  cases u.port with
  | none => rfl
  | some n => rfl

theorem parsed_iff_fits (data : YangUrlData) : u.Parsed data ↔ u.Fits data := by
  constructor
  · rintro ⟨data', hparse, -, -, hserver, happ, hstream⟩
    obtain ⟨data'', hparse', -, -, -, -, hstream'⟩ :=
      u.parse_text data hserver.2 happ.2 hstream.2
    refine ⟨hserver.2, happ.2, hstream.2, fun hempty => ?_⟩
    obtain rfl : data'' = data' := congrArg Prod.snd (Call.ret.inj (hparse'.symm.trans hparse))
    rw [if_pos hempty] at hstream'
    rw [← hstream', hstream.1, hempty]
  · intro h
    obtain ⟨data', hparse, hnet, hport, hserver, happ, hstream⟩ :=
      u.parse_text data h.host h.app h.stream
    refine ⟨data', hparse, hnet, hport, ⟨hserver, h.host⟩, ⟨happ, h.app⟩, ?_, h.stream⟩
    split at hstream
    · rename_i hempty
      rw [hstream, h.empty hempty, hempty]
    · exact hstream

end UrlParts

end Parts

section Inside

variable {p a b : CStr} {data : YangUrlData}

/-- The first three segments are the application's as long as one follows, and what follows is the
stream. -/
def pathParts (p : CStr) : CStr × CStr :=
  match p.splitOn slash with
  | [] => ([], [])
  | [app] => (app, [])
  | [app, stream] => (app, stream)
  | [a, b, stream] => ([slash].intercalate [a, b], stream)
  | a :: b :: c :: rest => ([slash].intercalate [a, b, c], [slash].intercalate rest)

/-- The host is short enough for its field, or so long that it is passed over; it is not so long
that its length is held as a negative one. -/
def HostInside (p : CStr) : Prop := 0 ≤ hostSpan p ∧ hostSpan p < 30 ∨ 256 ≤ hostSpan p

def PathInside (p : CStr) : Prop := (pathParts p).1.length ≤ 20 ∧ (pathParts p).2.length ≤ 128

/-- What is behind a scheme that is taken has a host and a path that stay inside their fields. -/
def UrlInside (url : CStr) : Prop :=
  ∀ netType port p, urlScheme url = some (netType, port, p) → p ≠ [] →
    HostInside p ∧ ∀ host path, p = host ++ slash :: path → slash ∉ host → PathInside path

theorem splitOn_cut (h : slash ∉ a) : (a ++ slash :: b).splitOn slash = a :: b.splitOn slash := by
  rw [List.splitOn_append_cons_self, List.splitOn_eq_singleton h, List.singleton_append]

theorem pathParts_code (p : CStr) : urlAppnamelen p = (pathParts p).1.length ∧
    skipSlash (p.drop (urlAppnamelen p)) = (pathParts p).2 := by
  unfold urlAppnamelen pathParts
  cases h₁ : cut slash p with
  | none =>
    rw [List.splitOn_eq_singleton (cut_eq_none.mp h₁)]
    exact ⟨rfl, by rw [List.drop_length]; rfl⟩
  | some ab =>
    obtain ⟨a, p₂⟩ := ab
    obtain ⟨rfl, ha⟩ := cut_eq_some.mp h₁
    rw [splitOn_cut ha]
    cases h₂ : cut slash p₂ with
    | none =>
      rw [List.splitOn_eq_singleton (cut_eq_none.mp h₂)]
      simp only [h₂, List.drop_left', true_and]
      rfl
    | some ab =>
      obtain ⟨b, p₃⟩ := ab
      obtain ⟨rfl, hb⟩ := cut_eq_some.mp h₂
      have hsplit : a ++ slash :: (b ++ slash :: p₃) = (a ++ slash :: b) ++ slash :: p₃ := by simp
      rw [splitOn_cut hb]
      cases h₃ : cut slash p₃ with
      | none =>
        rw [List.splitOn_eq_singleton (cut_eq_none.mp h₃)]
        have hlen : a.length + 1 + b.length = (a ++ slash :: b).length := by
          simp only [List.length_append, List.length_cons]
          omega
        simp only [h₂, h₃, hlen, hsplit, List.drop_left']
        exact ⟨by simp [List.intercalate], rfl⟩
      | some ab =>
        obtain ⟨c, p₄⟩ := ab
        obtain ⟨rfl, hc⟩ := cut_eq_some.mp h₃
        have hsplit' : a ++ slash :: (b ++ slash :: (c ++ slash :: p₄)) =
            (a ++ slash :: (b ++ slash :: c)) ++ slash :: p₄ := by simp
        have hlen : a.length + 1 + b.length + 1 + c.length =
            (a ++ slash :: (b ++ slash :: c)).length := by
          simp only [List.length_append, List.length_cons]
          omega
        rw [splitOn_cut hc]
        simp only [h₂, h₃, hlen, hsplit', List.drop_left']
        obtain ⟨d, rest, hrest⟩ := List.exists_cons_of_ne_nil (List.splitOn_ne_nil slash p₄)
        have hjoin : [slash].intercalate (p₄.splitOn slash) = p₄ := List.intercalate_splitOn slash
        rw [hrest] at hjoin ⊢
        exact ⟨by simp [List.intercalate], hjoin.symm⟩

theorem memcpy_returns {size : Nat} {bs : CStr} {β : Type} {f : Field size → Call β} {P : Prop}
    (hf : ∀ field, (∃ r, f field = .ret r) ↔ P) :
    (∃ r, (Field.memcpy size bs >>= f) = .ret r) ↔ bs.length ≤ size ∧ P := by
  unfold Field.memcpy
  split
  · rename_i h
    rw [Call.ret_bind, hf, and_iff_right h]
  · rename_i h
    exact iff_of_false nofun fun hboth => h hboth.1

theorem urlStream_returns (p : CStr) (data : YangUrlData) :
    (∃ r, urlStream p data = .ret r) ↔ p.length ≤ 128 := by
  unfold urlStream
  split
  · rename_i h
    exact iff_of_true ⟨_, rfl⟩ (by simp [h])
  · exact (memcpy_returns fun _ => ret_returns).trans (and_iff_left trivial)

theorem appnamelen_le (p : CStr) : urlAppnamelen p ≤ p.length := by
  unfold urlAppnamelen
  split
  · exact Nat.le_refl _
  · rename_i a p₂ h₁
    obtain ⟨rfl, -⟩ := cut_eq_some.mp h₁
    rw [List.length_append, List.length_cons]
    split
    · omega
    · rename_i b p₃ h₂
      obtain ⟨rfl, -⟩ := cut_eq_some.mp h₂
      rw [List.length_append, List.length_cons]
      split
      · omega
      · rename_i c p₄ h₃
        obtain ⟨rfl, -⟩ := cut_eq_some.mp h₃
        rw [List.length_append, List.length_cons]
        omega

theorem skipSlash_length (p : CStr) : p.length ≤ (skipSlash p).length + 1 := by
  unfold skipSlash
  split
  · exact Nat.zero_le _
  · split <;> simp

theorem urlPath_returns (p : CStr) (data : YangUrlData) :
    (∃ r, urlPath p data = .ret r) ↔ PathInside p := by
  obtain ⟨happ, hstream⟩ := pathParts_code p
  have hle := appnamelen_le p
  unfold urlPath PathInside
  rw [← happ, ← hstream]
  by_cases hlen : urlAppnamelen p < 2 ^ 31
  · have hsign : ¬(urlAppnamelen p : Int) < 0 := by omega
    have htake : (p.take (urlAppnamelen p)).length = urlAppnamelen p := by
      rw [List.length_take, Nat.min_eq_left hle]
    simp only [held_eq hlen, if_neg hsign, Int.toNat_natCast]
    refine (memcpy_returns fun _ => urlStream_returns _ _).trans ?_
    rw [htake]
  · -- what is left behind the length that is held is more than any stream
    have hheld := held_le (Nat.le_of_not_lt hlen)
    refine iff_of_false ?_ fun h => hlen (by omega)
    dsimp only
    split
    · exact nofun
    · rename_i hsign
      intro hret
      have hrest := ((memcpy_returns fun _ => urlStream_returns _ _).mp hret).2
      have hskip := skipSlash_length
        (p.drop (Int32.ofNat (urlAppnamelen p)).toInt.toNat)
      rw [List.length_drop] at hskip
      omega

theorem strcpy_field_returns {size : Nat} {s : CStr} {β : Type} {f : Field size → Call β}
    (hf : ∀ field, ∃ r, f field = .ret r) :
    (∃ r, (Field.strcpy size s >>= f) = .ret r) ↔ s.length < size := by
  unfold Field.strcpy
  split
  · rename_i h
    exact iff_of_true (hf _) h
  · rename_i h
    exact iff_of_false nofun h

theorem urlServer_returns (p : CStr) (data : YangUrlData) :
    (∃ r, urlServer id p data = .ret r) ↔ HostInside p := by
  have hle : hostSpan p ≤ p.length := by
    have hpre := (List.takeWhile_prefix (· ≠ colon) (l := p)).length_le
    unfold hostSpan upTo
    omega
  unfold urlServer HostInside
  rw [urlHostlen_toInt]
  dsimp only [id]
  split
  · split
    · exact iff_of_false nofun (by omega)
    · refine (strcpy_field_returns fun _ => ⟨_, rfl⟩).trans ?_
      rw [List.length_take]
      omega
  · exact iff_of_true ⟨_, rfl⟩ (.inr (by omega))

theorem parse_returns (url : CStr) (data : YangUrlData) :
    (∃ r, yangUrlParse id url data = .ret r) ↔ UrlInside url := by
  unfold yangUrlParse UrlInside
  cases hscheme : urlScheme url with
  | none => exact iff_of_true ⟨_, rfl⟩ fun _ _ _ h => nomatch h
  | some found =>
    obtain ⟨netType, port, p⟩ := found
    dsimp only
    by_cases hp : p = []
    · rw [if_pos hp]
      refine iff_of_true ⟨_, rfl⟩ ?_
      rintro _ _ _ ⟨⟩ hne
      exact absurd hp hne
    · have hserver := urlServer_returns p { data with netType, port }
      rw [if_neg hp, bind_returns]
      constructor
      · rintro ⟨data₁, hret, hrest⟩ _ _ _ ⟨⟩ -
        refine ⟨hserver.mp ⟨data₁, hret⟩, ?_⟩
        rintro host path rfl hhost
        rw [cut_eq_some.mpr ⟨rfl, hhost⟩] at hrest
        obtain ⟨r, hpath, -⟩ := bind_returns.mp hrest
        exact (urlPath_returns path _).mp ⟨r, hpath⟩
      · intro h
        obtain ⟨hhost, hpath⟩ := h _ _ _ rfl hp
        obtain ⟨data₁, hret⟩ := hserver.mpr hhost
        refine ⟨data₁, hret, ?_⟩
        cases hcut : cut slash p with
        | none => exact ⟨_, rfl⟩
        | some found =>
          obtain ⟨host, path⟩ := found
          obtain ⟨hp, hfree⟩ := cut_eq_some.mp hcut
          obtain ⟨r, hr⟩ := (urlPath_returns path _).mpr (hpath host path hp hfree)
          exact bind_returns.mpr ⟨r, hr, _, rfl⟩

/-- The parts are parsed exactly where they fit, and no text is written behind a field exactly where
what is found in it stays inside. -/
theorem url_parse (data : YangUrlData) : (∀ u : UrlParts, u.Parsed data ↔ u.Fits data) ∧
    ∀ url, (∃ r, yangUrlParse id url data = .ret r) ↔ UrlInside url :=
  ⟨fun u => u.parsed_iff_fits data, fun url => parse_returns url data⟩

/-- The name of the application has twenty-one characters. -/
def longApp : UrlParts :=
  ⟨.webrtc, lit "1.2.3.4", some 1985, lit "conference-room-12345", lit "camera", by decide +kernel,
    by decide⟩

theorem url_parse_overrun :
    ¬longApp.Parsed {} ∧ ¬∃ r, yangUrlParse id longApp.text {} = .ret r := by
  constructor
  · intro h
    exact absurd ((longApp.parsed_iff_fits {}).mp h).app (by decide)
  · have hcrash : yangUrlParse id longApp.text {} = .crash := by decide +kernel
    rw [hcrash]
    exact nofun

end Inside

end MetaRtc
