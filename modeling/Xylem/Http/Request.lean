import Xylem.Encoding.Base64
import Xylem.Http.RequestLines

namespace Xylem.Http

open Lib Xylem.Encoding

/-- `xylem_http_proxy_t`. -/
structure HttpProxy where
  host : Option (List UInt8)
  port : UInt16
  username : Option (List UInt8)
  password : Option (List UInt8)

/-- `xylem_http_tls_t`. -/
structure HttpTls where
  ca : Option (List UInt8)
  cert : Option (List UInt8)
  key : Option (List UInt8)
  skipVerify : Bool

/-- `xylem_http_cli_opts_t`, as far as it decides what is sent. -/
structure HttpCliOpts where
  maxRedirects : Int
  proxy : Option HttpProxy
  tls : Option HttpTls
  expectContinue : Bool
  allowHttpsDowngrade : Bool

/-- The arguments of `http_do_request`. -/
structure HttpCall where
  method : List UInt8
  url : List UInt8
  body : List UInt8
  contentType : Option (List UInt8)
  headers : List HttpHdr
  options : Option HttpCliOpts

variable (call : HttpCall)

/-- `base`. -/
def HttpCall.opts : HttpCliOpts :=
  call.options.getD
    { maxRedirects := 10, proxy := none, tls := none, expectContinue := false, allowHttpsDowngrade := false }

/-- The check of the headers, with the size of those before. -/
def httpHeadersAdmitted (bodyLen : Nat) : Nat → List HttpHdr → Bool
  | _, [] => true
  | headerSize, header :: rest =>
    let n := header.name.length + header.value.length + 4
    if !httpHeaderIsToken header.name || 0x0d ∈ header.value || 0x0a ∈ header.value then false
    else if 65536 - headerSize < n then false
    else if httpHeaderEq header.name (ascii "Transfer-Encoding") then false
    else if httpHeaderEq header.name (ascii "Content-Length") && header.value ≠ printed bodyLen then false
    else httpHeadersAdmitted bodyLen (headerSize + n) rest

/-- The checks that `http_do_request` begins with, and the URL. -/
def HttpCall.checked : Option HttpUrl :=
  if !httpHeaderIsToken call.method || 64 < call.method.length || 256 < call.headers.length ||
      2 ^ 64 - 1 - 131072 < call.body.length then none
  else if call.contentType.any fun type => 0x0d ∈ type || 0x0a ∈ type then none
  else if !httpHeadersAdmitted call.body.length 0 call.headers then none
  else (httpUrlParse call.url).bind fun parsed => if call.opts.maxRedirects < 0 then none else some parsed

/-- What `http_do_request` carries from one request to the next. -/
structure HttpLoop where
  parsed : HttpUrl
  stripAuth : Bool
  rebuildHost : Bool
  dropEntity : Bool
  redirects : Nat
  method : List UInt8
  body : List UInt8
  contentType : Option (List UInt8)

def HttpCall.start (parsed : HttpUrl) : HttpLoop :=
  { parsed, stripAuth := false, rebuildHost := false, dropEntity := false, redirects := 0, method := call.method
    body := call.body, contentType := call.contentType }

variable (name : List UInt8)

def isCredential : Bool :=
  httpHeaderEq name (ascii "Authorization") || httpHeaderEq name (ascii "Cookie") ||
    httpHeaderEq name (ascii "X-API-Key") || httpHeaderEq name (ascii "API-Key")

def isProxyAuth : Bool := httpHeaderEq name (ascii "Proxy-Authorization")

def isEntity : Bool :=
  httpHeaderEq name (ascii "Content-Length") || httpHeaderEq name (ascii "Content-Type") ||
    httpHeaderEq name (ascii "Content-Encoding") || httpHeaderEq name (ascii "Expect")

variable (loop : HttpLoop)

/-- Whether a header of the caller goes into the request. -/
def HttpLoop.keeps (proxy secure : Bool) (header : HttpHdr) : Bool :=
  !(loop.rebuildHost && httpHeaderEq header.name (ascii "Host")) &&
    !(loop.stripAuth && isCredential header.name) &&
    !(isProxyAuth header.name && (!proxy || secure || loop.stripAuth)) &&
    !(loop.dropEntity && isEntity header.name)

/-- The last `Expect` header decides. -/
def httpExpect (bodyLen : Nat) (expect : Bool) (headers : List HttpHdr) : Bool :=
  headers.foldl (fun expect header =>
    if httpHeaderEq header.name (ascii "Expect") then
      decide (0 < bodyLen) && httpHeaderEq header.value (ascii "100-continue")
    else expect) expect

/-- Removes the `Proxy-Authorization` headers; the last header takes the place of one that goes. -/
def httpDropSwap : (count : Nat) → List HttpHdr → List HttpHdr
  | count + 1, header :: rest =>
    if isProxyAuth header.name then httpDropSwap count (rest.getLast?.toList ++ rest.dropLast)
    else header :: httpDropSwap count rest
  | _, headers => headers

variable (proxy : Option HttpProxy)

/-- `proxy`: whether a proxy is used. -/
def usesProxy : Bool := proxy.any fun proxy => proxy.host.any (· ≠ [])

/-- The credentials of the proxy replace those of the caller. -/
def httpAuthenticate (filtered : List HttpHdr) : Option (List HttpHdr) :=
  match proxy.bind HttpProxy.username with
  | none => some filtered
  | some username =>
    let pass := (proxy.bind HttpProxy.password).getD []
    let n := username.length + pass.length + 1
    if 16384 < n then none
    else
      (base64EncodeStd (username ++ ascii ":" ++ pass) (base64EncodeSize n)).map fun auth =>
        httpDropSwap filtered.length filtered ++ [⟨ascii "Proxy-Authorization", ascii "Basic " ++ auth⟩]

/-- A request that is sent, and the proxy that it is sent with. -/
structure HttpSent where
  req : HttpReq
  proxy : Option HttpProxy

/-- The loop of `http_do_request`, up to the request. What the environment names as proxy is `env`. -/
def HttpCall.prepare (env : List UInt8 → Option HttpProxy) : Option HttpSent :=
  (httpUrlSerialize loop.parsed 4096).bind fun target =>
    let proxy := call.opts.proxy.orElse fun _ => env target
    let secure := loop.parsed.scheme == .https
    let filtered := call.headers.filter (loop.keeps (usesProxy proxy) secure)
    let plain := usesProxy proxy && !secure
    (if plain then httpAuthenticate proxy filtered else some filtered).map fun headers =>
      { proxy
        req :=
          { method := loop.method, url := loop.parsed, body := loop.body, contentType := loop.contentType
            expectContinue :=
              httpExpect loop.body.length (call.opts.expectContinue && decide (0 < loop.body.length)) filtered
            absoluteForm := plain
            headers } }

/-- What is sent first where the environment names no proxy. -/
def HttpCall.first : Option HttpSent :=
  call.checked.bind fun parsed => call.prepare (call.start parsed) fun _ => none

end Xylem.Http
