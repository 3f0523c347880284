import ContainerFeed.HostConfig
import ContainerFeed.Http.Exposure
import ContainerFeed.Http.Ingest

/-!
# The host process

Reads the configuration, sets the publisher up first if the configuration says so, hands the
batches in the named files to the ingest surface one after another, and writes what both surfaces
answer. The exit code tells whether a setup has failed.
-/

namespace ContainerFeed.Host

/-- The variable that names the configuration file. -/
def configVariable : String :=
  "HEAPSTER_PUBLISHER_CONFIG"

/-- The configuration file when the variable is not set. -/
def configPath : String :=
  "publisher.yaml"

/-- The content of a file that can be read. -/
def contentOf (path : String) : IO (Option (List UInt8)) := do
  try
    return some (← IO.FS.readBinFile path).data.toList
  catch _ =>
    return none

/-- The surroundings of a publisher with some options. The template is the only file that a
setup looks at, and no port is refused. -/
def surroundings (options : Options) : IO Surroundings := do
  match (Settings.resolve options).templateSource with
  | .builtin => return ⟨fun _ => none, fun _ => none⟩
  | .file path =>
    let text := (← contentOf path).bind Text.ofOctets?
    return ⟨fun name => if name = path then text else none, fun _ => none⟩

/-- Writes the body of a response. -/
def write (response : Http.Response) : IO Unit := do
  match response.body with
  | .text content => IO.println content
  | .document content => IO.println content.render

/-- The request that carries a batch. -/
def batchRequest (content : List UInt8) : Http.Request :=
  ⟨"POST", "/publish", some Batch.contentType, content⟩

/-- Takes in the batches of some files and writes the documents of all containers. -/
def run (config : HostConfig) (paths : List String) : IO UInt32 := do
  let around ← surroundings config.options
  let mut publisher := Publisher.new
  if config.eagerStart then
    match publisher.start around config.options with
    | (.ok _, started) => publisher := started
    | (.error fault, _) =>
      IO.eprintln ("couldn't start publisher: " ++ fault.message)
      return 1
  for path in paths do
    let content := (← contentOf path).getD []
    let outcome := Http.Ingest.respond publisher around config.options (batchRequest content)
    write outcome.response
    publisher := outcome.publisher
    if outcome.stop then return 1
  write (Http.Exposure.answer publisher.store .containers)
  return 0

end ContainerFeed.Host

/-- Runs the host process with its configuration file on the batch files named as arguments. -/
def main (paths : List String) : IO UInt32 := do
  let path := (← IO.getEnv ContainerFeed.Host.configVariable).getD
    ContainerFeed.Host.configPath
  ContainerFeed.Host.run (.ofFile (← ContainerFeed.Host.contentOf path)) paths
