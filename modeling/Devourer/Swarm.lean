import Mathlib.Algebra.Group.Nat.Defs
import Mathlib.Algebra.Ring.Int.Defs
import Mathlib.Data.Rat.Init

/-! # What the packet decoder reports

The modules see a packet only as the `swarm::Property` their handler is given.
`Property` holds the values they read from it, whatever the decoder may report;
the one thing its type promises is that times fit `time_t` and that the packets
of the registered events, all carried by IPv4 or IPv6, have addresses of four or
sixteen bytes.
-/

namespace Devourer

/-- A region of memory together with its length. -/
abbrev Bytes := List UInt8

/-- `swarm::ev_id`. -/
abbrev EvId := ℤ

/-- `swarm::FlowDir`. -/
inductive FlowDir where
  | nil
  | l2r
  | r2l
  deriving DecidableEq, Repr

/-- The bytes of an IPv4 or IPv6 address. -/
structure IpAddr where
  bytes : Bytes
  size : bytes.length = 4 ∨ bytes.length = 16 := by decide
  deriving DecidableEq

/-- A question of a DNS packet: `repr()` of `dns.qd_name` and `dns.qd_type`. -/
structure Question where
  name : String
  type : String
  deriving DecidableEq

/-- An answer of a DNS packet: `repr()` of `dns.an_name`, `dns.an_type` and
`dns.an_data`, the type as a number, and the data as bytes. -/
structure AnswerRecord where
  name : String
  type : String
  recType : UInt32
  data : String
  ptr : Bytes
  deriving DecidableEq

/-- `swarm::Property`. -/
structure Property where
  /-- `tv_sec()`, the second in which the packet was captured. -/
  tvSec : ℤ
  tvSec_lower : -2 ^ 63 ≤ tvSec := by decide
  tvSec_upper : tvSec < 2 ^ 63 := by decide
  /-- `ts()`, a `double`: the capture time with its fraction of a second. -/
  ts : ℚ
  hashValue : UInt64
  hashHex : String
  ssnLabel : Bytes
  dir : FlowDir
  /-- `src_addr()` and `dst_addr()` as text, then as bytes. -/
  srcAddr : String
  dstAddr : String
  src : IpAddr
  dst : IpAddr
  proto : String
  hasPort : Bool
  srcPort : Int32
  dstPort : Int32
  len : UInt64
  /-- `value("dns.query")`, zero for a query. -/
  dnsQuery : UInt32
  dnsTxId : UInt32
  questions : List Question
  answers : List AnswerRecord
  /-- `repr()` of a value the packet does not have. -/
  nullRepr : String
  deriving DecidableEq

/-- `value("dns.qd_name").repr()`, the name of the first question. -/
def Property.qdName (p : Property) : String :=
  match p.questions with
  | [] => p.nullRepr
  | question :: _ => question.name

/-- A packet of the given second and hash value, for the runs on fixed inputs. -/
def Property.sample (tvSec : UInt32) (hashValue : UInt64) : Property where
  tvSec := tvSec.toNat
  tvSec_lower := by omega
  tvSec_upper := by
    have bounded := tvSec.toNat_lt
    omega
  ts := tvSec.toNat
  hashValue := hashValue
  hashHex := ""
  ssnLabel := []
  dir := .l2r
  srcAddr := ""
  dstAddr := ""
  src := ⟨[10, 0, 0, 1], by decide⟩
  dst := ⟨[10, 0, 0, 2], by decide⟩
  proto := ""
  hasPort := false
  srcPort := 0
  dstPort := 0
  len := 0
  dnsQuery := 0
  dnsTxId := 0
  questions := []
  answers := []
  nullRepr := ""

/-- A `time_t` turned into a `size_t`. -/
def sizeOfTime (time : ℤ) : ℕ := (time % 2 ^ 64).toNat

theorem sizeOfTime_of_nonneg {time : ℤ} (nonneg : 0 ≤ time) (bounded : time < 2 ^ 64) :
    sizeOfTime time = time.toNat := by
  rw [sizeOfTime, Int.emod_eq_of_lt nonneg bounded]

/-- A `double` of seconds turned into a `time_t`. -/
def timeOfDouble (seconds : ℚ) : ℤ := seconds.num.tdiv seconds.den

end Devourer
