import SignHash.Extraction.Exchange

/-!
# Schedules

What a pool may deliver, whichever of its workers is first. Threads take the identifiers in any
order, and the first failure among them ends the work; processes come to what their exchange yields.
`Pool.fetchAll` is what is delivered if every worker waits for the one before it.
-/

namespace SignHash

/-- What threads may come to that still have to fetch identifiers. -/
inductive Gathers (fetch : String → Except Error Descriptor) :
    List String → Except Error (List Descriptor) → Prop where
  /-- There are none. -/
  | done : Gathers fetch [] (.ok [])
  /-- One of them is fetched, then the others are. -/
  | next (before after : List String) {id : String} {d : Descriptor}
      {result : Except Error (List Descriptor)} (fetched : fetch id = .ok d)
      (rest : Gathers fetch (before ++ after) result) :
      Gathers fetch (before ++ id :: after) (result.map (d :: ·))
  /-- One of them cannot be fetched; nothing is kept. -/
  | fail (before after : List String) {id : String} {e : Error} (failed : fetch id = .error e) :
      Gathers fetch (before ++ id :: after) (.error e)

/-- What a pool may deliver for identifiers of a source, along with how far its processes are then. -/
inductive Pool.Delivers (pool : Pool) (source : Source) (ids : List String) :
    List ProcessState → Except Error (List Descriptor) → Prop where
  /-- Threads share the source. -/
  | threads {result : Except Error (List Descriptor)} (kind : pool.useProcesses = false)
      (run : Gathers source.fetch ids result) : Delivers pool source ids [] result
  /-- Processes cannot open the source. -/
  | notShareable (kind : pool.useProcesses = true) (alone : source.shareable = none) :
      Delivers pool source ids [] (.error (.configuration .notShareable))
  /-- An identifier cannot be sent to a process. -/
  | lineBreak {config : SourceConfig} {id : String} (kind : pool.useProcesses = true)
      (shared : source.shareable = some config) (broken : ids.find? breaksLines = some id) :
      Delivers pool source ids [] (.error (.validation (.lineBreak id)))
  /-- Processes open the source on their own. -/
  | processes {config : SourceConfig} {last : Exchange} {result : Except Error (List Descriptor)}
      (kind : pool.useProcesses = true) (shared : source.shareable = some config)
      (plain : ids.find? breaksLines = none)
      (run : Exchange.Yields source.fetch (shares pool.workers ids) last result) :
      Delivers pool source ids (last.lanes.map Lane.process) result

end SignHash
