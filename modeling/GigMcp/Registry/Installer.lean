import GigMcp.Store.Methods

/-!
# The index installer

`IndexInstaller` (`registry/installer.go`): install a server from the signed
index, decide whether the install is itself the consent, and uninstall.

The schema package (resolving a reference, validating a manifest, hashing its
runtime contract, parsing a bundled one) is a parameter.
-/

namespace GigMcp.Registry

open GigMcp.Effect GigMcp.System GigMcp.Store

/-- The installer's configuration.  `autoConsent` is set for boot installs. -/
structure IndexInstaller where
  schema : Schema
  dataDir : String
  autoConsent : Bool

def builderToolpack : String := "toolpack"

/-- The message of `ManifestMismatchError`. -/
def manifestMismatch (m : Manifest) (indexHash bundledHash : String) : Err :=
  .new ("registry: toolpack " ++ m.name ++ "@" ++ m.version ++
    ": bundled manifest.yaml does not match the signed index manifest (index hash " ++
    indexHash ++ ", bundled " ++ bundledHash ++ "); refusing to install a tampered image")

/-- `filepath.Join` of clean, non-empty parts. -/
def joinPath (a b : String) : String := a ++ "/" ++ b

def stageDir (dataDir : String) (m : Manifest) : String :=
  joinPath (joinPath dataDir "servers") (m.name ++ "@" ++ m.version)

/-- The placeholder a prior install gave a credential, the last one with its id
winning. -/
def priorPlaceholder (prior : Option ManifestRecord) (credID : String) : Option String :=
  match prior with
  | none => none
  | some rec =>
      ((rec.injections.filter fun i ↦ i.placeholder ≠ "" ∧ i.id = credID).getLast?).map
        Injection.placeholder

def newPlaceholder : Code (Except Err String) := do
  match ← perform .random with
  | .error e => return .error e
  | .ok s => return .ok ("gigph-" ++ s)

/-- The placeholder of a credential: the prior one, or a new one. -/
def placeholderFor (prior : Option ManifestRecord) (credID : String) : Code (Except Err String) :=
  match priorPlaceholder prior credID with
  | some p => return .ok p
  | none => newPlaceholder

/-- A credential's injection record under a placeholder. -/
def toInjection (c : Credential) (placeholder : String) : Injection :=
  ⟨c.id, c.type, c.provider, c.vendor, c.scopes, c.inject.header, c.inject.format, c.inject.env,
    placeholder⟩

/-- Injection records for a manifest's credentials, reusing the placeholders of a
prior install by credential id. -/
def buildInjections (prior : Option ManifestRecord) :
    List Credential → Code (Except Err (List Injection))
  | [] => return .ok []
  | c :: cs => do
      match ← placeholderFor prior c.id with
      | .error e => return .error e
      | .ok p =>
          match ← buildInjections prior cs with
          | .error e => return .error e
          | .ok is => return .ok (toInjection c p :: is)

/-- The record a manifest is stored as; `PutManifest` keeps the stored consent. -/
def toRecord (m : Manifest) (injections : List Injection) (hash : String) : ManifestRecord :=
  ⟨m.name, m.version, m.image.digest, m.tier, m.image.entrypoint, m.displayName, m.category,
    m.description, m.egress, injections, m.tools, hash, ""⟩

namespace IndexInstaller

variable (i : IndexInstaller)

def crossCheckBundledManifest (bundleDir : String) (m : Manifest) : Code (Except Err Unit) := do
  match ← perform (.readFile (joinPath bundleDir "manifest.yaml")) with
  | .error e => return .error (.wrap "registry: read bundled manifest.yaml" e)
  | .ok raw =>
      match i.schema.parse raw with
      | .error e => return .error (.wrap "registry: parse bundled manifest.yaml" e)
      | .ok bm =>
          match i.schema.validate bm with
          | .error e => return .error (.wrap "registry: bundled manifest.yaml invalid" e)
          | .ok _ =>
              match i.schema.runtimeHash m with
              | .error e => return .error e
              | .ok wantHash =>
                  match i.schema.runtimeHash bm with
                  | .error e => return .error e
                  | .ok got =>
                      if got ≠ wantHash then return .error (manifestMismatch m wantHash got)
                      else return .ok ()

/-- Record the server row in bundle or single-file mode. -/
def ensureRow (m : Manifest) : Code (Except Err Server) :=
  let dir := stageDir i.dataDir m
  if m.image.builder = builderToolpack then
    sql (.ensureServer m.name m.image.entrypoint dir)
  else sql (.ensureServer m.name (joinPath dir "server") "")

/-- Record consent when the install is itself the consent: a first install, or a
boot install. -/
def maybeConsent (name hash : String) (prior : Option ManifestRecord) : Code (Except Err Unit) :=
  if i.autoConsent ∨ (prior.map ManifestRecord.consentedHash).getD "" = "" then
    sql (.recordConsent name hash)
  else return .ok ()

/-- The refresh of an install that is already there: the server row, then the
manifest, then consent. -/
def refresh (m : Manifest) (hash : String) (prior : Option ManifestRecord) :
    Code (Except Err Server) := do
  match ← i.ensureRow m with
  | .error e => return .error e
  | .ok srv =>
      match ← buildInjections prior m.credentials with
      | .error e => return .error e
      | .ok injections =>
          match ← sql (.putManifest (toRecord m injections hash)) with
          | .error e => return .error e
          | .ok _ =>
              match ← i.maybeConsent m.name hash prior with
              | .error e => return .error e
              | .ok _ => return .ok srv

/-- Put the image's artifact in place. -/
def pull (m : Manifest) : Code (Except Err Unit) := do
  let dir := stageDir i.dataDir m
  if m.image.builder = builderToolpack then
    match ← perform (.extractBundle m.image dir) with
    | .error e => return .error e
    | .ok _ =>
        match ← i.crossCheckBundledManifest dir m with
        | .error e =>
            let _ ← perform (.removeAll dir)
            return .error e
        | .ok _ => return .ok ()
  else perform (.extract m.image (joinPath dir "server"))

/-- The records of a full install: the manifest first, then the server row, then
consent. -/
def record (m : Manifest) (hash : String) (prior : Option ManifestRecord) :
    Code (Except Err Server) := do
  match ← buildInjections prior m.credentials with
  | .error e => return .error e
  | .ok injections =>
      match ← sql (.putManifest (toRecord m injections hash)) with
      | .error e => return .error e
      | .ok _ =>
          match ← i.ensureRow m with
          | .error e => return .error e
          | .ok srv =>
              match ← i.maybeConsent m.name hash prior with
              | .error e => return .error e
              | .ok _ => return .ok srv

/-- The same install is already there: the prior record has the version and the hash,
and the artifact is on disk. -/
def alreadyInstalled (m : Manifest) (hash : String) (prior : Option ManifestRecord) :
    Code Bool :=
  if prior.any fun rec ↦ rec.version = m.version ∧ rec.manifestHash = hash then
    perform (.stat (joinPath (stageDir i.dataDir m) "server"))
  else return false

/-- Install a manifest whose hash is known, with the record that was there
before. -/
def installOver (m : Manifest) (hash : String) (prior : Option ManifestRecord) :
    Code (Except Err Server) := do
  if ← i.alreadyInstalled m hash prior then i.refresh m hash prior
  else
    match ← i.pull m with
    | .error e => return .error e
    | .ok _ => i.record m hash prior

/-- Install a manifest the index resolved. -/
def installManifest (m : Manifest) : Code (Except Err Server) := do
  match i.schema.validate m with
  | .error e =>
      return .error (.wrap ("registry: manifest " ++ m.name ++ "@" ++ m.version ++ " invalid") e)
  | .ok _ =>
      match i.schema.runtimeHash m with
      | .error e => return .error e
      | .ok hash =>
          match ← sql (.getManifest m.name) with
          | .ok rec => i.installOver m hash (some rec)
          | .error e =>
              if e.is .manifestNotFound then i.installOver m hash none else return .error e

/-- `Install` with the answer of the index fetch. -/
def installFrom (ref : String) : Except Err Index → Code (Except Err Server)
  | .error e => return .error e
  | .ok ix =>
      match i.schema.resolve ix ref with
      | .error e => return .error e
      | .ok m => i.installManifest m

/-- `Install`. -/
def install (ref : String) : Code (Except Err Server) := do
  let fetched ← perform .fetchIndex
  i.installFrom ref fetched

/-- `^[a-z0-9]([a-z0-9-]*[a-z0-9])?$`. -/
def uninstallName (name : String) : Bool :=
  let alnum (c : Char) : Bool := c.isLower || c.isDigit
  let cs := name.toList
  cs.all (fun c ↦ alnum c || c = '-') && cs.head?.any alnum && cs.getLast?.any alnum

/-- `errors.Join` of the errors of removing each artifact directory. -/
def removeDirs : List String → Code (Except Err Unit)
  | [] => return .ok ()
  | d :: ds => do
      let r ← perform (.removeAll d)
      let rest ← removeDirs ds
      match r with
      | .error e => return .error e
      | .ok _ => return rest

/-- `Uninstall`. -/
def uninstall (name : String) : Code (Except Err Unit) := do
  if !uninstallName name then
    return .error (.new ("registry: invalid server name \"" ++ name ++ "\""))
  else
    match ← sql (.deleteServer name) with
    | .error e => return .error e
    | .ok _ =>
        match ← sql (.deleteManifest name) with
        | .error e => return .error e
        | .ok _ =>
            match ← sql (.deleteDisabledToolsForServer name) with
            | .error e => return .error e
            | .ok _ =>
                match ← perform (.glob (joinPath (joinPath i.dataDir "servers") (name ++ "@*"))) with
                | .error e => return .error e
                | .ok dirs => removeDirs dirs

/-- `List`. -/
def list (_ : IndexInstaller) : Code (Except Err (List Server)) := sql .listServers

end IndexInstaller

end GigMcp.Registry
