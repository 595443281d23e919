import Forward.Serve.Paths
import Forward.Serve.Security

/-!
# The file server's replies

`respond` asks who is there, for what, and under which name, before it looks at the file system.
The file system is what the three calls of the server find, the crates it uses are functions.
-/

namespace Forward.Serve

open Lib Net
open Hygiene (textBytes)

/-! ## What the server calls -/

structure Metadata where
  isDir : Bool
  isFile : Bool
  len : Nat

structure DirEntry where
  isDir : Bool
  name : List UInt8

structure FileSystem where
  metadata : Path → Except IoErrorKind Metadata
  readDir : Path → Except IoErrorKind (List DirEntry)
  read : Path → Except IoErrorKind (List UInt8)

/-- The parsers and renderers; `lossy` is `from_utf8_lossy`, and `mimeGuess` the essence
of the first guess. -/
structure Crates where
  parseIp : String → Option IpAddr
  parseUrl : List UInt8 → Option Url
  lossy : List UInt8 → String
  markdownToHtml : String → String
  mimeGuess : Path → Option String

/-! ## Replies -/

structure Reply where
  status : Nat
  contentType : String
  body : List UInt8
  headers : List (String × String)

def Reply.new (status : Nat) (contentType : String) (body : List UInt8) : Reply :=
  ⟨status, contentType, body, []⟩

def htmlContentType : String := "text/html; charset=utf-8"

def textContentType : String := "text/plain; charset=utf-8"

def healthBody : String := "forward preview healthy\n"

def textReply (status : Nat) (text : String) : Reply :=
  .new status textContentType (textBytes text)

def healthReply : Reply := textReply 200 healthBody

def forbidden : Reply := textReply 403 "Forbidden\n"

def methodNotAllowed : Reply :=
  { textReply 405 "Method Not Allowed\n" with headers := [("Allow", "GET, HEAD")] }

def badRequest : Reply := textReply 400 "Bad Request\n"

def notFound : Reply := textReply 404 "Not Found\n"

def internalServerError : Reply := textReply 500 "Internal Server Error\n"

def payloadTooLarge : Reply := textReply 413 "Payload Too Large\n"

/-! ## Pages -/

def escapeChar : Char → List Char
  | '&' => "&amp;".toList
  | '<' => "&lt;".toList
  | '>' => "&gt;".toList
  | '"' => "&quot;".toList
  | '\'' => "&#39;".toList
  | c => [c]

/-- `escape_html`: the ampersand is replaced first, so no replacement is replaced again. -/
def escapeHtml (value : String) : String := String.ofList (value.toList.flatMap escapeChar)

def markdownHead : String :=
  "<!DOCTYPE html>\n<html lang=\"en\">\n<head>\n    <meta charset=\"utf-8\">\n" ++
  "    <meta name=\"viewport\" content=\"width=device-width, initial-scale=1\">\n    <title>"

def markdownStyle : String :=
  "</title>\n    <link rel=\"stylesheet\"\n          href=\"https://cdn.jsdelivr.net/npm/" ++
  "github-markdown-css@5/github-markdown-dark.css\">\n    <link rel=\"stylesheet\"\n" ++
  "          href=\"https://cdn.jsdelivr.net/gh/highlightjs/cdn-release@11/build/styles/" ++
  "github-dark.min.css\">\n    <style>\n        body \x7b\n            background: #0d1117;\n" ++
  "            padding: 2rem;\n            display: flex;\n            justify-content: center;\n" ++
  "        \x7d\n        .markdown-body \x7b\n            max-width: 980px;\n" ++
  "            width: 100%;\n            padding: 2rem;\n        \x7d\n    </style>\n</head>\n" ++
  "<body>\n    <article class=\"markdown-body\">\n"

def markdownTail : String := "    </article>\n</body>\n</html>"

def fileName (path : Path) : Option (List UInt8) :=
  match (components path).getLast? with
  | some [46, 46] => none
  | name => name

/-- What follows the last dot of the name, unless the name starts with it. -/
def extension (path : Path) : Option (List UInt8) := do
  let name ← fileName path
  let after := (name.reverse.takeWhile (· ≠ 46)).reverse
  if name.length ≤ after.length + 1 then none else some after

section

variable (crates : Crates)

def markdownReply (path : Path) (source : List UInt8) : Reply :=
  let title := crates.lossy ((fileName path).getD path)
  let body := crates.markdownToHtml (crates.lossy source)
  .new 200 htmlContentType (textBytes
    (markdownHead ++ escapeHtml title ++ markdownStyle ++ body ++ "\n" ++ markdownTail))

/-- Directories first, then by the bytes of the names. -/
def entryLe (left right : DirEntry) : Bool :=
  if left.isDir == right.isDir then decide (left.name ≤ right.name) else left.isDir

def join (path : Path) (name : List UInt8) : Path :=
  if path.getLast? = some 47 then path ++ name else path ++ 47 :: name

def entryLine (path : Path) (entry : DirEntry) : List UInt8 :=
  textBytes "<li><a href=\"" ++ Render.encodePath (join path entry.name) ++ textBytes "\">" ++
    textBytes (escapeHtml (crates.lossy entry.name)) ++
    textBytes (if entry.isDir then "/" else "") ++ textBytes "</a></li>"

def directoryReply (path : Path) (entries : List DirEntry) : Reply :=
  .new 200 htmlContentType (textBytes
      ("<!DOCTYPE html><html><head><meta charset=\"utf-8\"><title>Index</title></head>" ++
        "<body><ul>") ++
    (entries.mergeSort entryLe).flatMap (entryLine crates path) ++
    textBytes "</ul></body></html>")

def maxFileSize : Nat := 64 * 1024 * 1024

def isMd (extension : List UInt8) : Bool :=
  (extension.map fun byte => if 65 ≤ byte ∧ byte ≤ 90 then byte + 32 else byte) = [109, 100]

def contentType (path : Path) : String :=
  match crates.mimeGuess path with
  | none => textContentType
  | some mime => if mime.startsWith "text/" then mime ++ "; charset=utf-8" else mime

def fileReply (fs : FileSystem) (path : Path) (raw : Bool) (size : Nat) : Reply :=
  if maxFileSize < size then payloadTooLarge
  else
    match fs.read path with
    | .error .notFound => notFound
    | .error .other => internalServerError
    | .ok body =>
      if (extension path).any isMd then
        if raw then .new 200 textContentType body else markdownReply crates path body
      else .new 200 (contentType crates path) body

end

/-! ## Requests -/

section

variable (crates : Crates) (cfg : Config) (fs : FileSystem) (request : Request)

def pathReply (path : Path) (raw : Bool) : Reply :=
  match fs.metadata path with
  | .ok metadata =>
    if metadata.isDir then
      match fs.readDir path with
      | .ok entries => directoryReply crates path entries
      | .error _ => internalServerError
    else if metadata.isFile then fileReply crates fs path raw metadata.len
    else notFound
  | .error .notFound => notFound
  | .error .other => internalServerError

def respond : Reply :=
  if !peerAllowed crates.parseIp cfg request then forbidden
  else if request.method ≠ .get ∧ request.method ≠ .head then methodNotAllowed
  else if !hostAllowed crates.parseIp cfg request then forbidden
  else if request.url = healthPath then healthReply
  else
    match requestPath crates.parseUrl (textBytes request.url) with
    | none => badRequest
    | some (path, raw) => pathReply crates fs path raw

end

/-! ## Strangers -/

variable {crates : Crates} {cfg : Config} {request : Request}

/-- The request comes from no configured peer, or under no name of the server. -/
def Stranger (parse : String → Option IpAddr) (cfg : Config) (request : Request) : Prop :=
  ¬ (∃ remote ips, request.remoteAddr = some remote ∧ cfg.peerIps parse = .ok ips ∧
    remote.toCanonical ∈ ips) ∨
  ¬ ∃ text host, hostHeader request = some text ∧ HostPort (asciiLower text.toList) host ∧
    NamesListen parse cfg host

theorem probe_of_stranger (h : Stranger crates.parseIp cfg request)
    (hPeer : peerAllowed crates.parseIp cfg request)
    (hHost : hostAllowed crates.parseIp cfg request) :
    loopbackHealthProbe request := by
  rcases h with hStranger | hStranger
  · exact (peerAllowed_iff.mp hPeer).resolve_right hStranger
  · exact (hostAllowed_iff.mp hHost).resolve_right hStranger

theorem url_of_probe (h : loopbackHealthProbe request) : request.url = healthPath := by
  unfold loopbackHealthProbe at h
  rw [Bool.and_eq_true, beq_iff_eq] at h
  exact h.1

theorem respond_of_stranger (h : Stranger crates.parseIp cfg request) :
    ∃ reply, (∀ fs, respond crates cfg fs request = reply) ∧
      (reply.status = 403 ∨ reply.status = 405 ∨
        request.url = healthPath ∧ reply = healthReply) := by
  unfold respond
  by_cases hPeer : peerAllowed crates.parseIp cfg request
  · by_cases hMethod : request.method ≠ .get ∧ request.method ≠ .head
    · exact ⟨methodNotAllowed, fun _ => by rw [hPeer, if_neg (by simp), if_pos hMethod],
        .inr (.inl rfl)⟩
    · by_cases hHost : hostAllowed crates.parseIp cfg request
      · have hUrl := url_of_probe (probe_of_stranger h hPeer hHost)
        refine ⟨healthReply, fun _ => ?_, .inr (.inr ⟨hUrl, rfl⟩)⟩
        rw [hPeer, if_neg (by simp), if_neg hMethod, hHost, if_neg (by simp), if_pos hUrl]
      · refine ⟨forbidden, fun _ => ?_, .inl rfl⟩
        rw [hPeer, if_neg (by simp), if_neg hMethod, Bool.eq_false_iff.mpr hHost,
          if_pos (by simp)]
  · refine ⟨forbidden, fun _ => ?_, .inl rfl⟩
    rw [Bool.eq_false_iff.mpr hPeer, if_pos (by simp)]

/-- **Strangers learn nothing.** A request that comes from no configured peer, or under no
name of the server, gets one reply whatever the file system holds: a refusal, or the
health body for the health path. -/
theorem strangers_learn_nothing (crates : Crates) (cfg : Config) (request : Request)
    (hStranger : Stranger crates.parseIp cfg request) :
    (∀ fs fs', respond crates cfg fs request = respond crates cfg fs' request) ∧
    ∀ fs, (respond crates cfg fs request).status = 403 ∨
      (respond crates cfg fs request).status = 405 ∨
      request.url = healthPath ∧ respond crates cfg fs request = healthReply := by
  obtain ⟨reply, hReply, hKind⟩ := respond_of_stranger hStranger
  refine ⟨fun fs fs' => (hReply fs).trans (hReply fs').symm, fun fs => ?_⟩
  rw [hReply fs]
  exact hKind

theorem strangers_learn_nothing_rebound :
    let parse : String → Option IpAddr := fun text =>
      if text = "10.0.0.1" then some (.v4 0x0a000001#32)
      else if text = "10.0.0.9" then some (.v4 0x0a000009#32) else none
    let crates : Crates := ⟨parse, fun _ => none, fun _ => "", id, fun _ => none⟩
    let cfg : Config := ⟨300, "10.0.0.1", "10.0.0.9", none, 12801, 12803, 12804, 12805, 12806⟩
    let request : Request :=
      ⟨some (.v4 0x0a000009#32), .get, [("Host", "rebound.example:12802")], "/home/notes.md"⟩
    peerAllowed parse cfg request = true ∧
      ∀ fs fs', respond crates cfg fs request = respond crates cfg fs' request := by
  intro parse crates cfg request
  have hHost : ¬ hostValueAllowed parse cfg (hostHeader request) := by decide +kernel
  refine ⟨by decide +kernel, ?_⟩
  exact (strangers_learn_nothing crates cfg request
    (.inr fun h => hHost (hostValueAllowed_iff.mpr h))).1

end Forward.Serve
