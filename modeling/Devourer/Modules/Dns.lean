import Devourer.Fluent
import Devourer.Foundation.Double
import Devourer.Foundation.Run
import Devourer.LRUHash.Pool
import Devourer.Swarm

/-! # The DNS module

`ModDns` follows DNS transactions and remembers the addresses and aliases found
in responses. It keeps three tables on one clock: the queries, and two caches of
address and CNAME records. A call of `recv` reports the messages it emits as
events; it aborts where an assertion of the source fails or where the source
reads a question that a query does not have.
-/

namespace Devourer

/-- `QueryKey`. -/
structure QueryKey where
  hv : UInt64
  txId : UInt32
  deriving DecidableEq, Inhabited

def QueryKey.hash (key : QueryKey) : UInt64 := key.hv ^^^ key.txId.toUInt64

/-- What the memory of a new `Query` happens to hold in the members that its
constructor leaves alone. -/
structure Memory where
  lastTs : ℚ
  ts : ℚ
  hasReply : Bool

/-- `Query`. -/
structure Query where
  lastTs : ℚ
  ts : ℚ
  key : QueryKey
  hasReply : Bool
  client : String
  server : String
  name : List String
  type : List String
  deriving Inhabited

namespace Query

/-- The constructor. -/
def new (memory : Memory) (key : QueryKey) : Query where
  lastTs := memory.lastTs
  ts := memory.ts
  key := key
  hasReply := memory.hasReply
  client := ""
  server := ""
  name := []
  type := []

def setTs (ts : ℚ) (query : Query) : Query := { query with lastTs := ts, ts := ts }

/-- `set_last_ts`, which assigns `ts_`. -/
def setLastTs (ts : ℚ) (query : Query) : Query := { query with ts := ts }

def setHasReply (has : Bool) (query : Query) : Query := { query with hasReply := has }

def setFlow (client server : String) (query : Query) : Query :=
  { query with client := client, server := server }

def addQuestion (question : Question) (query : Query) : Query :=
  { query with name := query.name ++ [question.name], type := query.type ++ [question.type] }

/-- `q_name(i)`, if there is one. -/
def qName (i : ℕ) (query : Query) : Option String := query.name[i]?

/-- `hash()` and `match()`. -/
def virt : Virtual Query QueryKey where
  hash query := query.key.hash
  matches? query key := query.key = key

end Query

/-- The number with the given bytes, the least significant first. -/
def littleEndian (bytes : Bytes) : ℕ := bytes.foldr (fun byte rest => byte.toNat + 256 * rest) 0

/-- `ARecord`. -/
structure ARecord where
  name : String
  key : Bytes
  initTs : ℤ
  lastTs : ℤ
  hv : UInt64
  deriving Inhabited

namespace ARecord

/-- `calc_hash`, which asserts that the address has four or sixteen bytes. -/
def calcHash (key : Bytes) : Option UInt64 :=
  if key.length = 4 then some (UInt64.ofNat (littleEndian key))
  else if key.length = 16 then
    some (UInt64.ofNat (littleEndian (key.take 8)) ^^^ UInt64.ofNat (littleEndian (key.drop 8)))
  else none

/-- The constructor. -/
def new (name : String) (key : Bytes) (initTs : ℤ) : Option ARecord :=
  (calcHash key).map fun hv => ⟨name, key, initTs, initTs, hv⟩

def update (ts : ℤ) (record : ARecord) : ARecord :=
  if record.lastTs < ts then { record with lastTs := ts } else record

/-- `hash()` and `match()`. -/
def virt : Virtual ARecord Bytes where
  hash record := record.hv
  matches? record key := record.key = key

end ARecord

/-- `CNameRecord`. -/
structure CNameRecord where
  qname : String
  cname : String
  lastTs : ℤ
  deriving Inhabited

namespace CNameRecord

/-- The constructor. -/
def new (qname cname : String) (initTs : ℤ) : CNameRecord := ⟨qname, cname, initTs⟩

def update (ts : ℤ) (record : CNameRecord) : CNameRecord := { record with lastTs := ts }

/-- `calc_hash`. -/
def calcHash (_name : String) : UInt64 := 0

/-- `hash()` and `match()`. -/
def virt : Virtual CNameRecord String where
  hash _ := 0
  matches? record key := record.cname = key

end CNameRecord

/-- What `ModDns` emits, with the transaction or the query it is about. -/
inductive DnsEvent where
  | success (query : ℕ) (key : QueryKey) (msg : Message)
  | miss (key : QueryKey) (msg : Message)
  | timeout (query : ℕ) (key : QueryKey) (msg : Message)
  | log (msg : Message)

/-- `ModDns`. -/
structure ModDns where
  lastTs : ℤ
  queryTable : Pool Query
  addrTable : Pool ARecord
  nameTable : Pool CNameRecord

namespace ModDns

/-- The constructor. -/
def new : ModDns where
  lastTs := 0
  queryTable := .new 600
  addrTable := .new 1200
  nameTable := .new 1200

def queryTtl : ℕ := 120

def cacheTtl : ℕ := 600

/-- The key of a packet. -/
def keyOf (p : Property) : QueryKey := ⟨p.hashValue, p.dnsTxId⟩

/-- Progress all three tables. -/
def prog (tick : ℕ) (this : ModDns) : ModDns :=
  { this with
    queryTable := this.queryTable.prog tick
    addrTable := this.addrTable.prog tick
    nameTable := this.nameTable.prog tick }

/-- The first part of `recv`: move the clock to the second of the packet. -/
def tick (ts : ℤ) (this : ModDns) : ModDns :=
  if 0 < this.lastTs ∧ this.lastTs < ts then
    { this.prog (sizeOfTime (ts - this.lastTs)) with lastTs := ts }
  else { this with lastTs := ts }

/-- The query a packet belongs to. -/
def findQuery (p : Property) (this : ModDns) : Option ℕ :=
  this.queryTable.get Query.virt (keyOf p).hash (keyOf p)

/-- The query built for a packet. -/
def newQuery (memory : Memory) (p : Property) : Query :=
  p.questions.foldl (fun query question => query.addQuestion question)
    (((Query.new memory (keyOf p)).setFlow p.srcAddr p.dstAddr).setTs p.ts)

/-- The second part of `recv` for a query. -/
def query (memory : Memory) (p : Property) (this : ModDns) : ModDns :=
  match this.findQuery p with
  | none =>
      let id := this.queryTable.built
      let queryTable := this.queryTable.build (newQuery memory p)
      { this with queryTable := (queryTable.put queryTtl id).2 }
  | some id => { this with queryTable := this.queryTable.modify id (Query.setLastTs p.ts) }

/-- The time since a query, which is a difference of `double`s. -/
def since (p : Property) (query : Query) : ℚ := Double.round (p.ts - query.lastTs)

/-- The message for a response to a query, whose first question is given. -/
def successMessage (p : Property) (query : Query) (qName : String) : Message :=
  (Message.retain "dns.tx").setTs (timeOfDouble query.lastTs)
    |>.set "client" (.text query.client)
    |>.set "server" (.text query.server)
    |>.set "q_name" (.text qName)
    |>.set "status" (.text "success")
    |>.set "latency" (.real (since p query))

/-- The message for a response without a query. -/
def missMessage (p : Property) : Message :=
  (Message.retain "dns.tx").setTs (timeOfDouble p.ts)
    |>.set "client" (.text p.dstAddr)
    |>.set "server" (.text p.srcAddr)
    |>.set "q_name" (.text p.qdName)
    |>.set "status" (.text "miss")

/-- The message for one answer. -/
def logMessage (tvSec : ℤ) (p : Property) (answer : AnswerRecord) : Message :=
  (Message.retain "dns.log").setTs tvSec
    |>.set "client" (.text p.dstAddr)
    |>.set "server" (.text p.srcAddr)
    |>.set "name" (.text answer.name)
    |>.set "type" (.text answer.type)
    |>.set "data" (.text answer.data)

/-- Remember the address of an A or AAAA record. -/
def addAddress (ts : ℤ) (answer : AnswerRecord) (this : ModDns) : Option ModDns :=
  (ARecord.calcHash answer.ptr).bind fun hv =>
    match this.addrTable.get ARecord.virt hv answer.ptr with
    | some id => some { this with addrTable := this.addrTable.modify id (ARecord.update ts) }
    | none =>
        (ARecord.new answer.name answer.ptr ts).map fun record =>
          let id := this.addrTable.built
          { this with addrTable := ((this.addrTable.build record).put cacheTtl id).2 }

/-- Remember the alias of a CNAME record. The table is searched for the name that
has the alias, although the records of the table answer to the alias. -/
def addCName (ts : ℤ) (answer : AnswerRecord) (this : ModDns) : ModDns :=
  match this.nameTable.get CNameRecord.virt (CNameRecord.calcHash answer.data) answer.name with
  | some id => { this with nameTable := this.nameTable.modify id (CNameRecord.update ts) }
  | none =>
      let id := this.nameTable.built
      let nameTable := this.nameTable.build (CNameRecord.new answer.name answer.data ts)
      { this with nameTable := (nameTable.put cacheTtl id).2 }

/-- Remember what an answer says. -/
def addRecord (ts : ℤ) (answer : AnswerRecord) (this : ModDns) : Option ModDns :=
  if answer.recType = 1 ∨ answer.recType = 28 then this.addAddress ts answer
  else if answer.recType = 5 then some (this.addCName ts answer)
  else some this

/-- The loop over the answers of a response. Where the loop stands in the source,
`ts` is no longer the second of the packet but the latency, a local variable of
that name. -/
def addAnswers (tvSec ts : ℤ) (p : Property) : List AnswerRecord → ModDns → Exec DnsEvent ModDns
  | [], this => pure this
  | answer :: rest, this => do
      Exec.emit (.log (logMessage tvSec p answer))
      let this ← Exec.ofOption (this.addRecord ts answer)
      addAnswers tvSec ts p rest this

/-- The second part of `recv` for a response to the query. -/
def response (p : Property) (id : ℕ) (this : ModDns) : Exec DnsEvent ModDns := do
  let query := this.queryTable.object id
  let qName ← Exec.ofOption (query.qName 0)
  Exec.emit (.success id (keyOf p) (successMessage p query qName))
  let this := { this with queryTable := this.queryTable.modify id (Query.setHasReply true) }
  addAnswers (timeOfDouble query.lastTs) (timeOfDouble (since p query)) p p.answers this

/-- The second part of `recv`. -/
def handle (memory : Memory) (p : Property) (this : ModDns) : Exec DnsEvent ModDns :=
  if p.dnsQuery = 0 then pure (this.query memory p)
  else
    match this.findQuery p with
    | some id => this.response p id
    | none => do
        Exec.emit (.miss (keyOf p) (missMessage p))
        pure this

/-- `ModDns::recv`. -/
def recv (memory : Memory) (p : Property) (this : ModDns) : Exec DnsEvent ModDns :=
  (this.tick p.tvSec).handle memory p

/-- The loop of `resolv_addr`: follow aliases backwards from a name, and return
the last record found. -/
def chase (this : ModDns) : ℕ → String → Option ℕ → Option ℕ
  | 0, _, record => record
  | left + 1, name, record =>
      match this.nameTable.get CNameRecord.virt (CNameRecord.calcHash name) name with
      | none => record
      | some id => chase this left (this.nameTable.object id).qname (some id)

/-- `ModDns::resolv_addr`, which asserts that the address has four or sixteen
bytes. -/
def resolvAddr (addr : Bytes) (recurMax : ℕ) (this : ModDns) : Option String :=
  (ARecord.calcHash addr).map fun hv =>
    match this.addrTable.get ARecord.virt hv addr with
    | none => ""
    | some id =>
        let record := this.addrTable.object id
        match this.chase recurMax record.name none with
        | some found => (this.nameTable.object found).qname
        | none => record.name

/-- The default of `recur_max`. -/
def recurMaxDefault : ℕ := 32

/-- The message for a query that found no reply. -/
def timeoutMessage (query : Query) (qName : String) : Message :=
  (Message.retain "dns.tx").setTs (timeOfDouble query.lastTs)
    |>.set "client" (.text query.client)
    |>.set "server" (.text query.server)
    |>.set "q_name" (.text qName)
    |>.set "status" (.text "timeout")

/-- `flush_query`: pop the expired queries and report those without a reply. -/
def flushQuery : ℕ → ModDns → Exec DnsEvent ModDns
  | 0, this => pure this
  | fuel + 1, this =>
      match this.queryTable.pop with
      | (none, _) => pure this
      | (some id, queryTable) => do
          let this := { this with queryTable := queryTable }
          let query := queryTable.object id
          if query.hasReply = false then
            let qName ← Exec.ofOption (query.qName 0)
            Exec.emit (.timeout id query.key (timeoutMessage query qName))
          flushQuery fuel this

/-- The destructor. -/
def destroy (this : ModDns) : Exec DnsEvent ModDns :=
  let queryTable := { this.queryTable with table := this.queryTable.table.purge }
  flushQuery (queryTable.table.exp.length + 1) { this with queryTable := queryTable }

end ModDns

end Devourer
