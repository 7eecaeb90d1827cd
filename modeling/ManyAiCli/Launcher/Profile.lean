import ManyAiCli.Text.Strings

/-! The connection profiles of the launcher and the file they are kept in,
`launcher-profiles.yaml`. The YAML library is a parameter. -/

namespace ManyAiCli.Launcher

open Text

/-- `ProfileType`; any text may come from the browser. -/
abbrev ProfileType := List Char

def profileTypeWSL : ProfileType := "wsl".toList

def profileTypeSSH : ProfileType := "ssh".toList

/-- `SSHMode`; empty is the default. -/
abbrev SSHMode := List Char

def sshModeServe : SSHMode := "serve".toList

def sshModeTunnel : SSHMode := "tunnel".toList

structure Profile where
  name : List Char := []
  type : ProfileType := []
  distro : List Char := []
  mode : SSHMode := []
  host : List Char := []
  user : List Char := []
  sshPort : ℤ := 0
  identityFile : List Char := []
  tokenCommand : List Char := []
  binary : List Char := []
  cwd : List Char := []
  hubPort : ℤ := 0
  deriving DecidableEq, Repr

/-- `supportedVersion`. -/
def supportedVersion : ℤ := 1

structure ProfilesFile where
  version : ℤ
  lastUsed : List Char := []
  profiles : List Profile := []
  deriving DecidableEq, Repr

/-- `normalizeProfile`: the first `@` of the host splits off the user. -/
def normalizeProfile (p : Profile) : Profile :=
  if p.type = profileTypeSSH ∧ p.host.contains '@' = true then
    { p with user := p.host.takeWhile (· ≠ '@'), host := (p.host.dropWhile (· ≠ '@')).drop 1 }
  else p

/-- Loading leaves the profile as it is. -/
def Profile.Normal (p : Profile) : Prop := p.type = profileTypeSSH → p.host.contains '@' = false

instance (p : Profile) : Decidable p.Normal := inferInstanceAs (Decidable (_ → _))

theorem normalizeProfile_of_normal {p : Profile} (h : p.Normal) : normalizeProfile p = p := by
  rw [normalizeProfile, if_neg]
  rintro ⟨ht, hc⟩
  rw [h ht] at hc
  exact Bool.false_ne_true hc

@[simp] theorem normalizeProfile_name (p : Profile) : (normalizeProfile p).name = p.name := by
  unfold normalizeProfile; split_ifs <;> rfl

@[simp] theorem normalizeProfile_type (p : Profile) : (normalizeProfile p).type = p.type := by
  unfold normalizeProfile; split_ifs <;> rfl

@[simp] theorem normalizeProfile_binary (p : Profile) : (normalizeProfile p).binary = p.binary := by
  unfold normalizeProfile; split_ifs <;> rfl

@[simp] theorem normalizeProfile_identityFile (p : Profile) :
    (normalizeProfile p).identityFile = p.identityFile := by
  unfold normalizeProfile; split_ifs <;> rfl

/-! ### Validation -/

/-- The errors of `Validate`, each with the position from 1, the profile's name and the
field it is about. -/
inductive ProfileError
  | nameRequired (idx : ℕ)
  | duplicateName (idx : ℕ) (name : List Char)
  | typeRequired (idx : ℕ) (name : List Char)
  | unknownType (idx : ℕ) (name : List Char) (type : ProfileType)
  | modeNotApplicable (idx : ℕ) (name : List Char)
  | leadingDash (idx : ℕ) (name : List Char) (field : String) (val : List Char)
  | spaceOrControl (idx : ℕ) (name : List Char) (field : String)
  | control (idx : ℕ) (name : List Char) (field : String)
  | hostRequired (idx : ℕ) (name : List Char)
  | unknownMode (idx : ℕ) (name : List Char) (mode : SSHMode)
  | tokenCommandRequired (idx : ℕ) (name : List Char)
  | portRequired (idx : ℕ) (name : List Char) (field : String)
  | portOutOfRange (idx : ℕ) (name : List Char) (field : String) (port : ℤ)
  deriving DecidableEq, Repr

/-- `isControlChar`. -/
def isControlChar (r : Char) : Bool := r.toNat < 0x20 || r.toNat = 0x7f

/-- `isSpaceOrControl`. -/
def isSpaceOrControl (r : Char) : Bool := isSpace r || r.toNat < 0x20 || r.toNat = 0x7f

def validatePort (port : ℤ) (required : Bool) (field : String) (name : List Char) (idx : ℕ) :
    Except ProfileError Unit :=
  if port = 0 then if required then .error (.portRequired idx name field) else .ok ()
  else if port < 1 ∨ port > 65535 then .error (.portOutOfRange idx name field port)
  else .ok ()

/-- The first of the fields that starts with a dash is the error. -/
def noLeadingDash (idx : ℕ) (name : List Char) :
    List (String × List Char) → Except ProfileError Unit
  | [] => .ok ()
  | (field, val) :: fs =>
    if val.head? = some '-' then .error (.leadingDash idx name field val)
    else noLeadingDash idx name fs

def noSpaceOrControl (idx : ℕ) (name : List Char) :
    List (String × List Char) → Except ProfileError Unit
  | [] => .ok ()
  | (field, val) :: fs =>
    if val.any isSpaceOrControl then .error (.spaceOrControl idx name field)
    else noSpaceOrControl idx name fs

def validateWSL (p : Profile) (idx : ℕ) : Except ProfileError Unit := do
  if p.mode ≠ [] then throw (.modeNotApplicable idx p.name)
  validatePort p.hubPort false "hub_port" p.name idx
  noLeadingDash idx p.name [("distro", p.distro), ("cwd", p.cwd), ("binary", p.binary)]
  noSpaceOrControl idx p.name [("distro", p.distro), ("binary", p.binary)]
  if p.cwd.any isControlChar then throw (.control idx p.name "cwd")

/-- The host and user are checked as `ssh` will get them, after `normalizeProfile`. -/
def validateSSH (p : Profile) (idx : ℕ) : Except ProfileError Unit := do
  let check := normalizeProfile p
  if trimSpace check.host = [] then throw (.hostRequired idx p.name)
  noLeadingDash idx p.name [("host", check.host), ("user", check.user), ("binary", check.binary),
    ("identity_file", check.identityFile)]
  noSpaceOrControl idx p.name [("host", check.host), ("user", check.user)]
  let mode := if p.mode = [] then sshModeServe else p.mode
  if mode = sshModeServe then validatePort p.hubPort false "hub_port" p.name idx
  else if mode = sshModeTunnel then
    validatePort p.hubPort true "hub_port" p.name idx
    if trimSpace p.tokenCommand = [] then throw (.tokenCommandRequired idx p.name)
  else throw (.unknownMode idx p.name p.mode)
  validatePort p.sshPort false "ssh_port" p.name idx

/-- `Validate`'s switch on the type. -/
def validateType (p : Profile) (idx : ℕ) : Except ProfileError Unit :=
  if p.type = profileTypeWSL then validateWSL p idx
  else if p.type = profileTypeSSH then validateSSH p idx
  else if p.type = [] then .error (.typeRequired idx p.name)
  else .error (.unknownType idx p.name p.type)

/-- `Validate` from position `idx` on; `seen` are the names before it. -/
def validateFrom : ℕ → List (List Char) → List Profile → Except ProfileError Unit
  | _, _, [] => .ok ()
  | idx, seen, p :: ps => do
    if p.name = [] then throw (.nameRequired idx)
    if seen.elem p.name then throw (.duplicateName idx p.name)
    validateType p idx
    validateFrom (idx + 1) (p.name :: seen) ps

def validate (pf : ProfilesFile) : Except ProfileError Unit := validateFrom 1 [] pf.profiles

theorem bind_eq_ok {ε α γ : Type} {x : Except ε α} {f : α → Except ε γ} {b : γ} :
    x >>= f = .ok b ↔ ∃ a, x = .ok a ∧ f a = .ok b := by
  cases x with
  | error e => exact ⟨fun h => (by cases h), fun ⟨_, h, _⟩ => (by cases h)⟩
  | ok a =>
    refine ⟨fun h => ⟨a, rfl, h⟩, fun ⟨a', h, h'⟩ => ?_⟩
    obtain rfl := Except.ok.inj h
    exact h'

theorem noLeadingDash_ok {idx : ℕ} {name : List Char} {fs : List (String × List Char)}
    (h : noLeadingDash idx name fs = .ok ()) : ∀ f ∈ fs, f.2.head? ≠ some '-' := by
  induction fs with
  | nil => simp
  | cons f fs ih =>
    rw [noLeadingDash] at h
    split_ifs at h with hd
    exact List.forall_mem_cons.2 ⟨hd, ih h⟩

theorem noSpaceOrControl_ok {idx : ℕ} {name : List Char} {fs : List (String × List Char)}
    (h : noSpaceOrControl idx name fs = .ok ()) : ∀ f ∈ fs, f.2.any isSpaceOrControl = false := by
  induction fs with
  | nil => simp
  | cons f fs ih =>
    rw [noSpaceOrControl] at h
    split_ifs at h with hd
    exact List.forall_mem_cons.2 ⟨by simpa using hd, ih h⟩

/-- What `ssh` gets as destination, binary and key is no option, and the destination is one word. -/
theorem validateSSH_ok {p : Profile} {idx : ℕ} (h : validateSSH p idx = .ok ()) :
    (∀ s ∈ [(normalizeProfile p).host, (normalizeProfile p).user, p.binary, p.identityFile],
        s.head? ≠ some '-') ∧
      (normalizeProfile p).host.any isSpaceOrControl = false ∧
      (normalizeProfile p).user.any isSpaceOrControl = false := by
  unfold validateSSH at h
  by_cases hh : trimSpace (normalizeProfile p).host = []
  · rw [if_pos hh] at h
    cases h
  · rw [if_neg hh] at h
    obtain ⟨_, h1, h⟩ := bind_eq_ok.1 h
    obtain ⟨_, h2, -⟩ := bind_eq_ok.1 h
    have hd := noLeadingDash_ok h1
    have hs := noSpaceOrControl_ok h2
    simp only [List.forall_mem_cons, normalizeProfile_binary, normalizeProfile_identityFile] at hd hs ⊢
    exact ⟨⟨hd.1, hd.2.1, hd.2.2.1, hd.2.2.2.1, by simp⟩, hs.1, hs.2.1⟩

/-- An accepted file has been checked profile by profile. -/
theorem validateSSH_of_validateFrom {idx : ℕ} {seen : List (List Char)} {ps : List Profile}
    (h : validateFrom idx seen ps = .ok ()) {p : Profile} (hp : p ∈ ps) (ht : p.type = profileTypeSSH) :
    ∃ i, validateSSH p i = .ok () := by
  induction ps generalizing idx seen with
  | nil => cases hp
  | cons q ps ih =>
    rw [validateFrom] at h
    by_cases hn : q.name = []
    · rw [if_pos hn] at h
      cases h
    rw [if_neg hn] at h
    by_cases hs : seen.elem q.name = true
    · rw [if_pos hs] at h
      cases h
    rw [if_neg hs] at h
    obtain ⟨_, h1, h2⟩ := bind_eq_ok.1 h
    rcases List.mem_cons.1 hp with rfl | hp
    · unfold validateType at h1
      rw [ht, if_neg (by decide), if_pos rfl] at h1
      exact ⟨idx, h1⟩
    · exact ih h2 hp

/-! ### The file -/

/-- `gopkg.in/yaml.v3` on profile files, with the texts it writes and reads: what is
marshalled is not blank and unmarshals to itself. -/
structure Yaml (β : Type*) where
  marshal : ProfilesFile → β
  unmarshal : β → Option ProfilesFile
  /-- Nothing but white space. -/
  blank : β → Bool
  unmarshal_marshal : ∀ pf, unmarshal (marshal pf) = some pf
  blank_marshal : ∀ pf, blank (marshal pf) = false

/-- Texts that are the documents themselves, none of them blank. -/
def Yaml.document : Yaml ProfilesFile where
  marshal := id
  unmarshal := some
  blank := fun _ => false
  unmarshal_marshal := fun _ => rfl
  blank_marshal := fun _ => rfl

variable {β : Type*} (Y : Yaml β)

/-- The document of the file, a missing or blank one being a fresh start. -/
def document (file : Option β) : Option ProfilesFile :=
  match file with
  | none => some { version := supportedVersion }
  | some data => if Y.blank data then some { version := supportedVersion } else Y.unmarshal data

/-- `LoadProfiles`, when the file can be read. -/
def loadProfiles (file : Option β) : Option ProfilesFile :=
  match document Y file with
  | none => none
  | some pf =>
    if pf.version > supportedVersion then none
    else some { pf with profiles := pf.profiles.map normalizeProfile }

/-- `SaveProfiles`: the renamed file replaces the old one whole. -/
def saveProfiles (pf : ProfilesFile) : Option β := some (Y.marshal pf)

@[simp] theorem document_saveProfiles (pf : ProfilesFile) :
    document Y (saveProfiles Y pf) = some pf := by
  simp [document, saveProfiles, Y.blank_marshal, Y.unmarshal_marshal]

/-- What is loaded is the document with its profiles normalised. -/
theorem loadProfiles_eq_some {file : Option β} {pf : ProfilesFile} (h : loadProfiles Y file = some pf) :
    ∃ doc, document Y file = some doc ∧ pf.lastUsed = doc.lastUsed ∧
      pf.profiles = doc.profiles.map normalizeProfile := by
  unfold loadProfiles at h
  split at h
  · cases h
  · rename_i doc hdoc
    split_ifs at h
    obtain rfl := Option.some.inj h
    exact ⟨doc, hdoc, rfl, rfl⟩

end ManyAiCli.Launcher
