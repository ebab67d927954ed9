import GreenBag.Http

/-! Connecting, sending requests, receiving response headers, and the setup threads. -/

namespace GreenBag

open Programs Ranges

def connDisconnect (i : Link) : Program Unit :=
  modifyConn i fun c => { c with fd := .closed, outstanding := [], response := none }

/-- `connects` tells whether the server accepts the connection. -/
def connInit (i : Link) (connects : Bool) : Program Bool := do
  if connects then do
    modifyConn i fun c => { c with fd := .socket, outstanding := [], response := none }
    return true
  else do
    connDisconnect i
    return false

/-- A request written to the descriptor 0 of a fresh connection reaches no server. -/
def sendGet (site : Site) (i : Link) (first last : ℤ) : Program Unit := do
  logEvent (.get · site i first last)
  let s ← get
  modifyConn i fun c => { c with
    outstanding := if c.fd = .socket then c.outstanding ++ [requestedRange s.size first last]
      else c.outstanding }

def gbGetRequest (i : Link) (firstByte lastByte : ℤ) : Program Unit :=
  sendGet .subsegment i firstByte lastByte

def gbGetRequests (i : Link) : List Chunk → Program Unit
  | [] => pure ()
  | c :: cs => do
    gbGetRequest i c.startByte c.lastByte
    gbGetRequests i cs

def sendHttpRequestForSubsegment (i : Link) (p : Option Subsegment) (connects : Bool) :
    Program Bool :=
  match p with
  | none => return false
  | some p => do
    let c ← connAt i
    whenever (c.fd = .closed) (do
      let connected ← connInit i connects
      ensure .exit connected)
    gbGetRequests i p.chunkList
    modifyConn i fun c => { c with pipelineRequestsSent := true, state := true }
    return true

def gbReceiveHttpHeaderResponse (site : Site) (i : Link) (reply : List UInt8) : Program Bool := do
  logEvent (.header · site i reply)
  match readHeaderBlock 0 [] reply with
  | none => return false
  | some headers => do
    modifyConn i fun c => { c with response := some ⟨c.status, headers⟩ }
    return true

/-- What `http_exec` does once the request is sent. Nothing can be read from a closed descriptor. -/
def httpExec (i : Link) (reply : List UInt8) : Program Bool := do
  let s ← get
  let reply := if (s.conn i).fd = .closed then [] else reply
  logEvent (.header · .setupThread i reply)
  match readHeaderBlock 0 [] reply with
  | none => return false
  | some headers => do
    modifyConn i fun c => { c with
      response := some ⟨c.status, headers⟩, status := (scanStatus headers).getD c.status }
    -- `strchr` finds no line end in an empty block
    ensure .nullPointer (10 ∈ headers)
    return true

def connExec (i : Link) (reply : List UInt8) : Program Bool := do
  let executed ← httpExec i reply
  let s ← get
  return executed && (s.conn i).status.tdiv 100 = 2

def connSetup (i : Link) (connects : Bool) : Program Bool := do
  let c ← connAt i
  let connected ← (if c.fd = .socket then pure true else connInit i connects)
  whenever connected (sendGet .setupThread i c.currentbyte c.lastbyte)
  return connected

/-- The last lines of `setup_thread`. -/
def setupFailed (i : Link) : Program Unit := do
  connDisconnect i
  modifyConn i fun c => { c with state := false, setupThread := .none }

/-- `setup_thread` up to its request. -/
def setupRequest (i : Link) (connects : Bool) : Program Unit := do
  let connected ← connSetup i connects
  if connected then modifyConn i fun c => { c with setupThread := .requested }
  else setupFailed i

/-- The rest of `setup_thread`. -/
def setupResponse (i : Link) (reply : List UInt8) : Program Unit := do
  let accepted ← connExec i reply
  if accepted then
    modifyConn i fun c => { c with enabled := true, state := false, setupThread := .none }
  else setupFailed i

end GreenBag
