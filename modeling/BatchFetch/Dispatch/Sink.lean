import BatchFetch.Files.System

namespace BatchFetch

/-- What can be asked of a place for bytes, which is in some state. A call that fails may have
changed the state too. -/
structure Sink (τ : Type) where
  write : Bytes → τ → Except IoError Unit × τ
  flush : τ → Except IoError Unit × τ

/-- Write a target and then the end of its line, and flush; the first call that fails is the last. -/
def Sink.record {τ : Type} (sink : Sink τ) (target : String) (state : τ) :
    Except IoError Unit × τ :=
  match sink.write (Text.Utf8.encode target.toList) state with
  | (.error e, state) => (.error e, state)
  | (.ok (), state) =>
    match sink.write [10] state with
    | (.error e, state) => (.error e, state)
    | (.ok (), state) => sink.flush state

end BatchFetch
