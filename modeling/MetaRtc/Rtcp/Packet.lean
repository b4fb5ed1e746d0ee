import MetaRtc.Buffer
import MetaRtc.Math

/-! # RTCP packets and the blocks of memory behind them -/
namespace MetaRtc

open Bytes

/-- An `int32_t` result. Zero is success. -/
abbrev Err := Int

def yangOk : Err := 0
def errorRtcRtcp : Err := 5007
def errorRtcRtcpEmptyRR : Err := 5031

namespace RtcpType

def fir := 192
def sr := 200
def rr := 201
def sdes := 202
def bye := 203
def app := 204
def rtpfb := 205
def psfb := 206
def xr := 207

end RtcpType

def kRtcpVersion := 2
def kPLI := 1
def kSLI := 2
def kRPSI := 3
def kAFB := 15

structure RtcpHeader where
  rc : Nat := 0
  padding : Nat := 0
  version : Nat := 0
  type : Nat := 0
  length : Nat := 0
  deriving DecidableEq

structure RtcpSR where
  ntp : Nat := 0
  rtpTs : Nat := 0
  sendRtpPackets : Nat := 0
  sendRtpBytes : Nat := 0
  deriving DecidableEq

structure RtcpRB where
  ssrc : Nat := 0
  fractionLost : Nat := 0
  lostPackets : Nat := 0
  highestSn : Nat := 0
  jitter : Nat := 0
  lsr : Nat := 0
  dlsr : Nat := 0
  deriving DecidableEq

/-- `nacks` holds the `vsize` entries in use of the array. -/
structure RtcpNack where
  mediaSsrc : Nat := 0
  capacity : Nat := 0
  nacks : List Nat := []
  deriving DecidableEq

structure RtcpRpsi where
  pb : Nat := 0
  payloadType : Nat := 0
  mediaSsrc : Nat := 0
  deriving DecidableEq

structure RecvTWCC where
  header : RtcpHeader := {}
  deriving DecidableEq

/-- `data` is an offset into the datagram, `payload` the bytes copied to the array
of that name. -/
structure RtcpCommon where
  ssrc : Nat := 0
  mediaSsrc : Nat := 0
  payloadLen : Int := 0
  nbData : Int := 0
  data : Option Nat := none
  rb : Option RtcpRB := none
  sr : Option RtcpSR := none
  nack : Option RtcpNack := none
  rpsi : Option RtcpRpsi := none
  twcc : Option RecvTWCC := none
  payload : List UInt8 := []
  header : RtcpHeader := {}
  deriving DecidableEq

/-- What a block on the heap was allocated for: a packet under decoding, one of its
sub-structures, or an array of one. -/
inductive Block where
  | rtcp | sr | rb | nack | nacks | rpsi | twcc | twccLists
  deriving DecidableEq

/-- The number of live blocks of each kind. -/
abbrev Heap := Block → Int

def Heap.alloc (heap : Heap) (k : Block) : Heap := fun j => if j = k then heap j + 1 else heap j
def Heap.free (heap : Heap) (k : Block) : Heap := fun j => if j = k then heap j - 1 else heap j

def Heap.allocIf (heap : Heap) (missing : Bool) (k : Block) : Heap :=
  if missing then heap.alloc k else heap

def createRtcpSR (comm : RtcpCommon) (heap : Heap) : RtcpCommon × Heap :=
  ({ comm with
      header := ⟨0, 0, kRtcpVersion, RtcpType.sr, 6⟩
      ssrc := 0
      sr := some {} },
    heap.allocIf comm.sr.isNone .sr)

def createRtcpRR (comm : RtcpCommon) (heap : Heap) : RtcpCommon × Heap :=
  ({ comm with
      header := ⟨0, 0, kRtcpVersion, RtcpType.rr, 7⟩
      ssrc := 0
      rb := some (comm.rb.getD {}) },
    heap.allocIf comm.rb.isNone .rb)

def rtcpNackInit (comm : RtcpCommon) (pssrc : Nat) : RtcpCommon :=
  { comm with
    header := ⟨1, 0, kRtcpVersion, RtcpType.rtpfb, 0⟩
    ssrc := pssrc
    nack := comm.nack.map fun nack => { nack with mediaSsrc := pssrc } }

def createRtcpNack (comm : RtcpCommon) (pssrc : Nat) (heap : Heap) : RtcpCommon × Heap :=
  (rtcpNackInit { comm with nack := some { comm.nack.getD {} with capacity := 50 } } pssrc,
    (heap.allocIf comm.nack.isNone .nack).allocIf comm.nack.isNone .nacks)

def createRtcptwcc (comm : RtcpCommon) (heap : Heap) : RtcpCommon × Heap :=
  let header : RtcpHeader := ⟨15, 0, kRtcpVersion, RtcpType.rtpfb, comm.header.length⟩
  ({ comm with header, twcc := some ⟨⟨15, 0, kRtcpVersion, RtcpType.rtpfb, 0⟩⟩ },
    (heap.alloc .twcc).alloc .twccLists)

def createRtcpPli (comm : RtcpCommon) : RtcpCommon :=
  { comm with
    header := ⟨kPLI, 0, kRtcpVersion, RtcpType.psfb, comm.header.length⟩
    ssrc := 0 }

def createRtcpRpsi (comm : RtcpCommon) (heap : Heap) : RtcpCommon × Heap :=
  ({ comm with
      header := ⟨kRPSI, 0, kRtcpVersion, RtcpType.psfb, comm.header.length⟩
      ssrc := 0
      rpsi := some { comm.rpsi.getD {} with pb := 0, payloadType := 0 } },
    heap.allocIf comm.rpsi.isNone .rpsi)

def createRtcpPsfb (comm : RtcpCommon) : RtcpCommon :=
  { comm with header := ⟨1, 0, kRtcpVersion, RtcpType.psfb, comm.header.length⟩ }

def createRtcpXr (comm : RtcpCommon) : RtcpCommon :=
  { comm with
    header := ⟨0, 0, kRtcpVersion, RtcpType.xr, comm.header.length⟩
    ssrc := 0 }

def createRtcpCommon (comm : RtcpCommon) : RtcpCommon := comm

/-- The guard `comm || comm->sr == NULL` asks whether there is a packet at all, where
the others ask whether there is none. -/
def destroyRtcpSR (comm : RtcpCommon) (heap : Heap) : RtcpCommon × Heap :=
  let commGiven := true
  if commGiven || comm.sr.isNone then (comm, heap)
  else ({ comm with sr := none }, heap.free .sr)

def destroyRtcpRR (comm : RtcpCommon) (heap : Heap) : RtcpCommon × Heap :=
  if comm.rb.isNone then (comm, heap) else ({ comm with rb := none }, heap.free .rb)

def destroyRtcpNack (comm : RtcpCommon) (heap : Heap) : RtcpCommon × Heap :=
  if comm.nack.isNone then (comm, heap)
  else ({ comm with nack := none }, (heap.free .nacks).free .nack)

def destroyRtcpRpsi (comm : RtcpCommon) (heap : Heap) : RtcpCommon × Heap :=
  if comm.rpsi.isNone then (comm, heap) else ({ comm with rpsi := none }, heap.free .rpsi)

def destroyRtcptwcc (comm : RtcpCommon) (heap : Heap) : RtcpCommon × Heap :=
  if comm.twcc.isNone then (comm, heap)
  else ({ comm with twcc := none }, (heap.free .twccLists).free .twcc)

def destroyRtcpCommon (comm : RtcpCommon) (heap : Heap) : RtcpCommon × Heap :=
  let (comm, heap) := destroyRtcpSR comm heap
  let (comm, heap) := destroyRtcpRR comm heap
  let (comm, heap) := destroyRtcpNack comm heap
  let (comm, heap) := destroyRtcpRpsi comm heap
  let (comm, heap) := destroyRtcptwcc comm heap
  ({ comm with data := none }, heap)

structure RtcpCompound where
  rtcpVector : List RtcpCommon := []
  deriving DecidableEq

def rtcpCompoundAddRtcp (rtcps : RtcpCompound) (rtcp : RtcpCommon) : RtcpCompound :=
  { rtcps with rtcpVector := rtcps.rtcpVector ++ [rtcp] }

def rtcpCompoundClear (rtcps : RtcpCompound) (heap : Heap) : RtcpCompound × Heap :=
  ({ rtcps with rtcpVector := [] },
    rtcps.rtcpVector.foldl (fun heap rtcp => (destroyRtcpCommon rtcp heap).2) heap)

end MetaRtc
