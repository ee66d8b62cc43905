import IncrementalBuild.JobGraph
import IncrementalBuild.ModuleGraph
import IncrementalBuild.OutputLayout
import IncrementalBuild.Request

/-!
# The jobs of a request

The jobs that a request calls for, in the order of their numbers: the header
is compiled first, then the imported modules are built, then the inputs are
compiled, one job for each or one for all, and at last come the jobs that work
on what the compilers wrote. Since a job's number is its place in this list,
the number of every prerequisite is known when the job is written down.
-/

namespace IncrementalBuild

/-! ## Whether a request can be planned -/

/-- The first path that equals an earlier one. -/
def firstRepeated? : List Path → Option Path
  | paths => go [] paths
where
  /-- The same, `before` holding the paths passed already. -/
  go (before : List Path) : List Path → Option Path
    | [] => none
    | p :: rest => if before.contains p then some p else go (p :: before) rest

/-- What is wrong with a request, if anything is. -/
def BuildRequest.check (r : BuildRequest) (modules : Option ModuleGraph) :
    Except PlanningError Unit := do
  if Text.trim r.moduleName = "" then throw (.malformedRequest .emptyModuleName)
  if r.inputs.isEmpty then throw (.malformedRequest .noInputs)
  if r.outputs.isEmpty then throw (.malformedRequest .noOutputs)
  if r.concurrency = 0 then throw (.malformedRequest .noConcurrency)
  if let some p := firstRepeated? r.sourcePaths then
    throw (.malformedRequest (.repeatedInput p.text))
  if r.linkOutputs.length > 1 then
    throw (.missingOutputRule (.severalLinked (r.linkOutputs.map LinkOutput.name)))
  if let some output := r.linkOutputs.head? then
    if r.tools.linker.isNone then
      throw (.missingOutputRule (.linkerMissing output.name))
  if r.explicitModules && modules.isNone then throw (.malformedRequest .noModuleGraph)

/-- What the jobs of a request are made from. -/
structure PlanSetting where
  request : BuildRequest
  layout : OutputLayout
  /-- The modules that may have to be built. -/
  modules : ModuleGraph
  /-- The modules that are built, in their order. -/
  moduleOrder : List String

namespace PlanSetting

/-- A path as an argument after a flag. -/
def flagged (flag : String) (a : Artifact) : List String := [flag, a.path.text]

/-- The paths of artifacts as arguments. -/
def pathArgs (as : List Artifact) : List String := as.map (·.path.text)

/-- A job whose number is still to be given. -/
def draft (key : JobKey) (kind : JobKind) (inputs outputs : List Artifact)
    (command : Command) (prerequisites : List JobId) : Job :=
  ⟨0, key, kind, inputs, outputs, command, OrderedSet.ofList prerequisites⟩

variable (s : PlanSetting)

/-! ## The header and the imported modules -/

/-- The compiled header. -/
def headerArtifacts : List Artifact :=
  s.request.header.toList.map (fun h => s.layout.precompiledHeader h.path)

/-- The job that compiles the header, if there is one. -/
def headerJobs : List Job :=
  s.request.header.toList.map fun h =>
    let product := s.layout.precompiledHeader h.path
    draft (.precompileHeader h.path) (.precompileHeader h.path)
      [⟨h.path, .header⟩] [product]
      ⟨s.request.tools.compiler,
        ["--emit-pch", h.path.text] ++ flagged Command.outputFlag product⟩
      []

/-- The number of the job that compiles the header. -/
def headerIds : List JobId := List.range s.headerJobs.length

/-- The number of the job that builds a module. -/
def moduleId? (name : String) : Option JobId :=
  (s.moduleOrder.idxOf? name).map (s.headerJobs.length + ·)

/-- The modules of a list that are built, with their jobs and products. -/
def builtModules (names : List String) : List (JobId × Artifact) :=
  names.filterMap fun name =>
    (s.moduleId? name).map fun id => (id, s.layout.externalModule name)

/-- The job that builds a module. -/
def moduleJob (name : String) (m : ExternalModule) : Job :=
  let before := s.builtModules m.dependencies.toList
  let product := s.layout.externalModule name
  draft (.buildModule name) (.buildModule name)
    (⟨m.interfacePath, .moduleInterface⟩ :: before.map (·.2)) [product]
    ⟨s.request.tools.compiler,
      ["--build-module", name, m.interfacePath.text] ++ pathArgs (before.map (·.2))
        ++ flagged Command.outputFlag product⟩
    (before.map (·.1))

/-- The jobs that build the imported modules. -/
def moduleJobs : List Job :=
  s.moduleOrder.filterMap fun name => (s.modules.modules.get? name).map (s.moduleJob name)

/-! ## Compiling -/

/-- The modules that some inputs need, with their jobs and products. -/
def neededModules (sources : List Path) : List (JobId × Artifact) :=
  if s.request.explicitModules then
    s.builtModules
      (OrderedSet.ofList (sources.flatMap (fun p => (s.modules.neededBy p).toList))).toList
  else []

/-- What has to be done before some inputs are compiled. -/
def compilePrerequisites (sources : List Path) : List JobId :=
  s.headerIds ++ (s.neededModules sources).map (·.1)

/-- What compiling some inputs reads besides them. -/
def compileContext (sources : List Path) : List Artifact :=
  s.headerArtifacts ++ (s.neededModules sources).map (·.2)

/-- The arguments that all compile jobs share. -/
def compileArgs (modeArgs : List String) : List String :=
  ["-c"] ++ modeArgs ++ ["--module-name", s.request.moduleName] ++ s.request.compilerArgs
    ++ s.request.sourcePaths.map (·.text)

/-- The products of compiling one input, its dependency record left out. -/
def unitProducts (p : Path) : List Artifact :=
  let names := s.layout.perInput p
  (if s.request.needsObjects then [names.object] else [])
    ++ (if s.request.needsModule then [names.summary] else [])

/-- The job that compiles one input. -/
def inputJob (p : Path) : Job :=
  let record := (s.layout.perInput p).record
  let context := s.compileContext [p]
  let products := s.unitProducts p
  let key := JobKey.compile p
  draft key (.compile [⟨p, products, some record, key⟩] false)
    (⟨p, .source⟩ :: context) (products ++ [record])
    ⟨s.request.tools.compiler,
      s.compileArgs [] ++ pathArgs context ++ [Command.primaryFlag, p.text]
        ++ products.flatMap (flagged Command.outputFlag)
        ++ flagged Command.recordFlag record⟩
    (s.compilePrerequisites [p])

/-- The products of compiling all inputs together. -/
def moduleProducts : List Artifact :=
  (if s.request.needsObjects then [s.layout.wholeModuleObject] else [])
    ++ (if s.request.needsModule then [s.layout.mergedModule] else [])

/-- The job that compiles all inputs together. -/
def wholeModuleJob : Job :=
  let sources := s.request.sourcePaths
  let context := s.compileContext sources
  draft (.compileModule s.request.moduleName) (.compile [] true)
    (sources.map (⟨·, .source⟩) ++ context) s.moduleProducts
    ⟨s.request.tools.compiler,
      s.compileArgs ["--whole-module"] ++ pathArgs context
        ++ s.moduleProducts.flatMap (flagged Command.outputFlag)⟩
    (s.compilePrerequisites sources)

/-- The jobs that compile the inputs. -/
def compileJobs : List Job :=
  match s.request.mode with
  | .perFile => s.request.sourcePaths.map s.inputJob
  | .wholeModule => [s.wholeModuleJob]

/-- The numbers of the jobs that compile the inputs. -/
def compileIds : List JobId :=
  List.range' (s.headerJobs.length + s.moduleJobs.length) s.compileJobs.length

/-- The objects that the compile jobs write. -/
def objects : List Artifact :=
  if s.request.needsObjects then
    match s.request.mode with
    | .perFile => s.request.sourcePaths.map (fun p => (s.layout.perInput p).object)
    | .wholeModule => [s.layout.wholeModuleObject]
  else []

/-! ## After compiling -/

/-- The job that merges what the compile jobs wrote into one module. -/
def mergeJobs : List Job :=
  if s.request.needsModule && s.request.mode == .perFile then
    let summaries := s.request.sourcePaths.map (fun p => (s.layout.perInput p).summary)
    let product := s.layout.mergedModule
    [draft (.mergeModule s.request.moduleName) (.mergeModule s.request.moduleName)
      summaries [product]
      ⟨s.request.tools.compiler,
        ["--merge-modules", "--module-name", s.request.moduleName] ++ pathArgs summaries
          ++ flagged Command.outputFlag product⟩
      s.compileIds]
  else []

/-- The jobs after which the module is there. -/
def moduleIds : List JobId :=
  match s.request.mode with
  | .perFile =>
    [s.headerJobs.length + s.moduleJobs.length + s.compileJobs.length]
  | .wholeModule => s.compileIds

/-- The job that writes the module's interface. -/
def interfaceJobs : List Job :=
  if s.request.wantsInterface then
    let module := s.layout.mergedModule
    let product := s.layout.moduleInterface
    [draft (.generateInterface s.request.moduleName)
      (.generateInterface s.request.moduleName) [module] [product]
      ⟨s.request.tools.compiler,
        ["--emit-interface", module.path.text] ++ flagged Command.outputFlag product⟩
      s.moduleIds]
  else []

/-- How a linker is told what to make. -/
def linkArgs : LinkOutput → List String
  | .executable => []
  | .dynamicLibrary => ["--shared"]
  | .staticLibrary => ["--static"]

/-- The jobs that link. -/
def linkJobs : List Job :=
  match s.request.tools.linker with
  | none => []
  | some linker =>
    s.request.linkOutputs.map fun output =>
      let libraries := s.request.libraries.map (⟨·, .library⟩)
      let product := s.layout.linked output
      draft (.link product.path) (.link output) (s.objects ++ libraries) [product]
        ⟨linker,
          linkArgs output ++ pathArgs s.objects ++ pathArgs libraries
            ++ flagged Command.outputFlag product⟩
        s.compileIds

/-- All jobs, in the order of their numbers. -/
def jobs : List Job :=
  s.headerJobs ++ s.moduleJobs ++ s.compileJobs ++ s.mergeJobs ++ s.interfaceJobs ++ s.linkJobs

end PlanSetting

/-- **The job graph of a request**, or why there is none. -/
def BuildRequest.plan (r : BuildRequest) (modules : Option ModuleGraph) :
    Except PlanningError JobGraph := do
  r.check modules
  let modules := modules.getD .empty
  let moduleOrder ← if r.explicitModules then modules.buildOrder else pure []
  let setting : PlanSetting :=
    { request := r
      layout := OutputLayout.ofInputs r.outputDir r.moduleName r.sourcePaths
      modules, moduleOrder }
  setting.jobs.foldlM (fun g job => (g.add job).map (·.1)) ⟨[]⟩

end IncrementalBuild
