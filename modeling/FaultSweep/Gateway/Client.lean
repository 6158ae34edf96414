import FaultSweep.Gateway.Operations
import FaultSweep.Json.Reader
import FaultSweep.World

/-!
# The storage client

Uploads and downloads go through a command line, probes and repairs through services. A reply
counts only with a status from 200 to 299 and a body that is JSON; where no body is asked for, the
status is enough.
-/

namespace FaultSweep

structure Endpoints where
  control : String
  repair : String
  cluster : String
  timeoutSecs : Nat
  deriving DecidableEq

structure StorageClient where
  cli : CommandLine
  scratchDir : String
  endpoints : Endpoints

namespace StorageClient

variable {σ : Type}

def modeArgs : UploadMode → List String
  | .erasure alpha s p replication =>
    ["--alpha", Decimal.text alpha, "-s", Decimal.text s, "-p", Decimal.text p,
      "-r", Decimal.text replication]
  | .direct factor => ["-t", Decimal.text factor]

def uploadArgs (path : String) (mode : UploadMode) : List String :=
  "upload" :: path :: modeArgs mode

/-- An empty description counts as none. -/
def countArgs (file : String) (description : Option String) (depth : Nat) (out : String)
    (withMetrics : Bool) : List String :=
  let described := match description with
    | some d => if d = "" then [] else ["-m", d]
    | none => []
  ["downloadcnt", file] ++ described ++ ["-o", out, "-d", Decimal.text depth] ++
    (if withMetrics then ["-t"] else [])

def downloadArgs (file description : String) (depth : Nat) (address : String) : List String :=
  ["download", file, "-m", description, "-o", "out", "-d", Decimal.text depth, "-a", address]

/-- What a download wrote: one number between blanks, or a JSON document. -/
def parseRecovery (contents : String) (withMetrics : Bool) : Except String Recovery :=
  if withMetrics then
    match Json.parse? contents with
    | some v => .ok (.metrics v)
    | none => .error "metrics document is not JSON: unreadable"
  else
    let body := Text.trim contents.toList
    match Decimal.unsigned? wordBound body with
    | some n => .ok (.count n)
    | none => .error ("expected a block count, found '" ++ String.ofList body ++ "'")

/-- The file a download writes its count to. -/
def scratchPath (c : StorageClient) (d : Disk) : String :=
  Path.join c.scratchDir (".downloadcnt." ++ d.stamp ++ ".out")

def run (m : Machine σ) (c : StorageClient) (args : List String) (w : World σ) :
    Except CommandError Unit × World σ :=
  match w.run m c.cli args with
  | (.error e, w) => (.error e, w)
  | (.ok _, w) => (.ok (), w)

def readText (d : Disk) (path : String) : Except IoError String :=
  match d.read path with
  | .error e => .error e
  | .ok b => match Utf8.decode? b with
    | some s => .ok s
    | none => .error .notText

/-- The scratch file is removed once the program has ended well, whatever it holds. -/
def downloadCount (m : Machine σ) (c : StorageClient) (file : String)
    (description : Option String) (depth : Nat) (withMetrics : Bool) (w : World σ) :
    Except CommandError Recovery × World σ :=
  let out := c.scratchPath w.disk
  let w := { w with disk := w.disk.spend }
  let args := countArgs file description depth out withMetrics
  let command := Shell.join (c.cli.withArgs args)
  match c.run m args w with
  | (.error e, w) => (.error e, w)
  | (.ok (), w) =>
    let contents := readText w.disk out
    let w := { w with disk := w.disk.discard out }
    match contents with
    | .error e => (.error (.output command ("reading " ++ out ++ ": " ++ e.message)), w)
    | .ok text => match parseRecovery text withMetrics with
      | .error details => (.error (.output command details), w)
      | .ok r => (.ok r, w)

def download (m : Machine σ) (c : StorageClient) (file description : String) (depth : Nat)
    (address : String) (w : World σ) : Except CommandError Unit × World σ :=
  c.run m (downloadArgs file description depth address) w

def isSuccess (status : Nat) : Bool := 200 ≤ status && status ≤ 299

/-- What a reply says, as JSON. -/
def jsonReply : Fetched → Except ProbeError Json
  | .failed text => .error (.transport text)
  | .answered status body =>
    if isSuccess status then
      match (Utf8.decode? body).bind Json.parse? with
      | some v => .ok v
      | none => .error (.body "error decoding response body")
    else .error (.status status)
  | .broken status text => .error (if isSuccess status then .body text else .status status)

/-- What a reply says by its status alone. -/
def statusReply : Fetched → Except ProbeError Unit
  | .failed text => .error (.transport text)
  | .answered status _ => if isSuccess status then .ok () else .error (.status status)
  | .broken status _ => if isSuccess status then .ok () else .error (.status status)

def getJson (m : Machine σ) (url : String) (w : World σ) : Except ProbeError Json × World σ :=
  let (f, w) := w.fetch m ⟨.get, url, none⟩
  (jsonReply f, w)

/-- The state of a file on one peer. -/
def peerState? {ν : Type} (r : Reader ν) (n : ν) : Option String := do
  let fs ← r.fields? ["status"] n
  Reader.field fs "status" (some "") r.text?

/-- The peers that a pin report names, with their states; the last counts of those named twice. -/
def pinReport? (v : Json) : Option (SortedMap String) := do
  let r := Json.reader
  let fs ← r.fields? ["peer_map"] (Json.Node.ofValue v)
  let peers ← Reader.field fs "peer_map" (some []) fun n => do
    (← r.entries? n).mapM fun e => (peerState? r e.2).map (e.1, ·)
  return SortedMap.ofList peers

/-- Whether every peer that a report names holds the pin. -/
def pinned (v : Json) : Except ProbeError Bool :=
  match pinReport? v with
  | some peers => .ok (peers.entries.all (·.2 = "pinned"))
  | none => .error (.body "not a pin report")

def isTrue : Json → Bool
  | .bool b => b
  | _ => false

def peerCount : Json → Except ProbeError Nat
  | .arr items => .ok items.length
  | _ => .error (.body "expected a JSON array of peers")

def pinStatus (m : Machine σ) (c : StorageClient) (metaCid : String) (w : World σ) :
    Except ProbeError Bool × World σ :=
  let (v, w) := getJson m (c.endpoints.cluster ++ "/pins/" ++ metaCid) w
  (v.bind pinned, w)

def triggerRepair (m : Machine σ) (c : StorageClient) (request : RepairRequest) (w : World σ) :
    Except ProbeError Unit × World σ :=
  let url := c.endpoints.repair ++ "/triggerCollabRepair"
  let (f, w) := w.fetch m ⟨.post, url, some request.toJson⟩
  (statusReply f, w)

def repairDone (m : Machine σ) (c : StorageClient) (w : World σ) :
    Except ProbeError Bool × World σ :=
  let (v, w) := getJson m (c.endpoints.control ++ "/done") w
  (v.map isTrue, w)

def fetchMetrics (m : Machine σ) (c : StorageClient) (w : World σ) :
    Except ProbeError Json × World σ :=
  getJson m (c.endpoints.control ++ "/metrics") w

def countActivePeers (m : Machine σ) (c : StorageClient) (w : World σ) :
    Except ProbeError Nat × World σ :=
  let (v, w) := getJson m (c.endpoints.control ++ "/peers") w
  (v.bind peerCount, w)

def gateway (m : Machine σ) (c : StorageClient) : Gateway (World σ) where
  upload path mode := c.run m (uploadArgs path mode)
  pinStatus := c.pinStatus m
  downloadCount := c.downloadCount m
  triggerRepair := c.triggerRepair m
  repairDone := c.repairDone m
  fetchMetrics := c.fetchMetrics m
  countActivePeers := c.countActivePeers m

end StorageClient

end FaultSweep
