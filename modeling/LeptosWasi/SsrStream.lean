import LeptosWasi.Library.Streams
import LeptosWasi.Response
import LeptosWasi.Routes

namespace LeptosWasi.SsrStream

open Http Response Routes PollStream

abbrev Write := ResponseParts → ResponseParts

def applyWrites (writes : List Write) (options : ResponseParts) : ResponseParts :=
  writes.foldl (fun options write => write options) options

structure PinnedStream where
  {State : Type}
  source : PollStream State Write Bytes
  state : State

structure Link where
  rel : Bytes
  href : Bytes
  as_ : Option Bytes
  type_ : Option Bytes
  crossorigin : Bytes
deriving DecidableEq

structure WasmSplitManifest where
  packagePath : Bytes
  modules : String → Option (List Bytes)
  splitLoader : Bytes

def modulePreload (manifest : WasmSplitManifest) (nonce module : Bytes) : Link where
  rel := text "preload"
  href := manifest.packagePath ++ text "/" ++ module ++ text ".wasm"
  as_ := some (text "fetch")
  type_ := some (text "application/wasm")
  crossorigin := nonce

def loaderPreload (manifest : WasmSplitManifest) (nonce : Bytes) : Link where
  rel := text "modulepreload"
  href := manifest.packagePath ++ text "/" ++ manifest.splitLoader
  as_ := none
  type_ := none
  crossorigin := nonce

def registerSplitPrefetches (requested : List String) (nonce : Option Bytes)
    (manifest : Option WasmSplitManifest) : List Link :=
  if requested = [] then []
  else
    match manifest with
    | none => []
    | some manifest =>
      let modules := requested.flatMap fun key => (manifest.modules key).getD []
      modules.map (modulePreload manifest (nonce.getD [])) ++
        [loaderPreload manifest (nonce.getD [])]

/-- What the application and the crates below bring to one SSR response: the
streams of its views by branching and order, the data for hydration, the
futures that the views defer, and what the meta context makes of the links and
the first chunk. -/
structure Views (S P D : Type) where
  context : List Write
  start : S
  html : Bool → Bool → PollStream S Write Bytes
  pendingStart : P
  pendingData : PollStream P Write Bytes
  nonce : Option Bytes
  deferredStart : D
  /-- The loop over `await_deferred`, as one future. -/
  deferred : Gate D Write
  prefetches : List String
  manifest : Option WasmSplitManifest
  injectMetaContext : List Link → Bytes → Bytes

section

variable {S P D : Type} (v : Views S P D)

def Views.scripts : PollStream P Write Bytes :=
  v.pendingData.map id fun chunk =>
    text "<script" ++ v.nonce.elim [] (fun nonce => text " nonce=\"" ++ nonce ++ text "\"") ++
      text ">" ++ chunk ++ text "</script>"

/-- Awaiting `build_response`: the context and the application run, and
`render_mode` chooses the stream. -/
inductive Built (islandsRouter supportsOutOfOrder : Bool) :
    SsrMode → List Write → PinnedStream → Prop
  | collected {mode : SsrMode} {log : List (Seen Write Bytes)}
      {s : S} (hm : mode = .async ∨ mode = .static)
      (h : Runs (v.html islandsRouter false) v.start log true s) :
      Built islandsRouter supportsOutOfOrder mode (v.context ++ Seen.effects log)
        ⟨chain (once [] (Seen.items log).flatten) v.scripts, (some true, v.pendingStart)⟩
  | inOrder :
      Built islandsRouter supportsOutOfOrder .inOrder v.context
        ⟨chain (v.html islandsRouter false) v.scripts, (some v.start, v.pendingStart)⟩
  | outOfOrder {mode : SsrMode} (hm : mode = .partiallyBlocked ∨ mode = .outOfOrder) :
      Built islandsRouter supportsOutOfOrder mode v.context
        ⟨chain (v.html islandsRouter supportsOutOfOrder) v.scripts, (some v.start, v.pendingStart)⟩

def grouped (built : PinnedStream) : PollStream (Option built.State) Write Bytes :=
  (readyChunks 32 built.source).map id List.flatten

/-- The stream that `inject_meta_context` returns. Its first chunk was taken
from the groups and changed. -/
def injected (built : PinnedStream) (chunk : Bytes) :
    PollStream (Option Bool × Option built.State) Write Bytes :=
  chain (once [] chunk) (grouped built)

def gated (built : PinnedStream) (chunk : Bytes) :
    PollStream ((Option Bool × Option built.State) × D × Option Bytes) Write Bytes :=
  thenAwait v.deferred (injected built chunk)

inductive BodyEffect where
  | view (write : Write)
  | unsetOwner

/-- The parts of a response that `from_app` returns: the injected chunk that
its stream starts from, the first chunk, and where the stream stands. -/
structure Streaming (D : Type) where
  built : PinnedStream
  chunk : Bytes
  firstChunk : Bytes
  state : (Option Bool × Option built.State) × D × Option Bytes

/-- Awaiting `from_app` up to the response, with all that was written before. -/
inductive FromApp (islandsRouter supportsOutOfOrder : Bool) (mode : SsrMode) :
    List Write → Streaming D → Prop
  | responded {built : PinnedStream} {es₁ es₂ es₃ es₄ : List Write}
      {d : D} {first chunk : Option Bytes}
      {s : Option built.State} {st : (Option Bool × Option built.State) × D × Option Bytes}
      (hb : Built v islandsRouter supportsOutOfOrder mode es₁ built)
      (hd : v.deferred.Awaited v.deferredStart es₂ d)
      (hn : Next (grouped built) (some built.state) es₃ first s)
      (hf : Next (gated v built
        (v.injectMetaContext (registerSplitPrefetches v.prefetches v.nonce v.manifest)
        (first.getD []))) ((some true, s), d, none) es₄ chunk st) :
      FromApp islandsRouter supportsOutOfOrder mode (es₁ ++ es₂ ++ es₃ ++ es₄)
        ⟨built, v.injectMetaContext (registerSplitPrefetches v.prefetches v.nonce v.manifest)
          (first.getD []),
          chunk.getD [], st⟩

abbrev BodyState (r : Streaming D) : Type :=
  Option (Option Bool × ((Option Bool × Option r.built.State) × D × Option Bytes)) × Bool

/-- The response body: the first chunk, the rest of the stream, and the cleanup
of the owner with a last empty chunk. -/
def responseStream (r : Streaming D) :
    PollStream (BodyState r) BodyEffect (Except BodyError Bytes) :=
  (chain (chain (once [] r.firstChunk) ((gated v r.built r.chunk).map .view id))
    (once [.unsetOwner] [])).map id .ok

def Streaming.bodyStart (r : Streaming D) : BodyState r := (some (some true, r.state), true)

end

end LeptosWasi.SsrStream
