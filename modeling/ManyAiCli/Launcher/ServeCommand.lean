import ManyAiCli.Launcher.Profile
import ManyAiCli.Text.Shell
import Mathlib.Data.List.DropRight
import Mathlib.Algebra.Order.Ring.Int

/-! The commands that the launcher has `ssh` run on the remote host. `ssh` joins the
arguments after `--` with blanks and the login shell reads the result. What is to be one
argument of the remote command must be quoted for this reading; the serve command is not,
the clean-up is. -/

namespace ManyAiCli.Launcher

open Text

/-- `ShellQuote`: each quote in the text is closed around, escaped and reopened. -/
def shellQuote (s : List Char) : List Char :=
  '\'' :: s.flatMap (fun c => if c = '\'' then ['\'', '\\', '\'', '\''] else [c]) ++ ['\'']

/-- `regexp.QuoteMeta`. -/
def quoteMeta (s : List Char) : List Char :=
  s.flatMap fun c => if "\\.+*?()|[]\x7b\x7d^$".toList.contains c then ['\\', c] else [c]

/-- `%d`. -/
def decimal (n : ℤ) : List Char := n.repr.toList

def buildSSHBaseArgs (p : Profile) : List (List Char) :=
  ["-o".toList, "BatchMode=yes".toList, "-o".toList, "ExitOnForwardFailure=yes".toList,
    "-o".toList, "ServerAliveInterval=30".toList] ++
  (if p.sshPort > 0 then ["-p".toList, decimal p.sshPort] else []) ++
  (if p.identityFile ≠ [] then ["-i".toList, p.identityFile] else [])

/-- `[user@]host`. -/
def sshTarget (p : Profile) : List Char := if p.user ≠ [] then p.user ++ '@' :: p.host else p.host

/-- The binary of `runServe`. -/
def serveBinary (p : Profile) : List Char :=
  if p.binary = [] then "many-ai-cli".toList else p.binary

/-- `remoteCmd` of `tryServe`. -/
def remoteCmd (p : Profile) (binary : List Char) (port : ℤ) : List Char :=
  let cmd := "exec env MANY_AI_CLI_HOST_LABEL=".toList ++ shellQuote p.host ++ [' '] ++ shellQuote binary ++
    " serve --port ".toList ++ decimal port
  if p.cwd ≠ [] then "cd ".toList ++ shellQuote p.cwd ++ " && ".toList ++ cmd else cmd

/-- The arguments of `ssh` before the remote command. -/
def serveArgs (p : Profile) (port : ℤ) : List (List Char) :=
  buildSSHBaseArgs p ++ ["-t".toList, "-L".toList,
    "127.0.0.1:".toList ++ decimal port ++ ":127.0.0.1:".toList ++ decimal port, sshTarget p]

/-- The arguments of `ssh` in `tryServe`. -/
def tryServe (p : Profile) (binary : List Char) (port : ℤ) : List (List Char) :=
  serveArgs p port ++ ["--".toList, "bash".toList, "-ilc".toList, remoteCmd p binary port]

/-- The arguments of `ssh` in `cleanupSSHOrphans`. -/
def cleanupSSHOrphans (p : Profile) (binary : List Char) (port : ℤ) : List (List Char) :=
  buildSSHBaseArgs p ++ [sshTarget p, "--".toList, "pkill".toList, "-f".toList,
    shellQuote (quoteMeta binary ++ " serve --port ".toList ++ decimal port)]

/-- The remote command is what follows `--`, joined with blanks. No process is started
with a zero byte in an argument. -/
def sshCommand (args : List (List Char)) : Option (List Char) :=
  if args.any (·.contains '\x00') then none
  else some ([' '].intercalate ((args.dropWhile (· ≠ "--".toList)).drop 1))

/-- The simple commands of the login shell. -/
def loginShellRuns (args : List (List Char)) : Option (List Shell.Command) :=
  (sshCommand args).bind Shell.parse

/-- What the profile asks for: the binary with the port and the label, in the directory. -/
def serveCommands (p : Profile) (binary : List Char) (port : ℤ) : List Shell.Command :=
  let serve : Shell.Command := ⟨["exec".toList, "env".toList, "MANY_AI_CLI_HOST_LABEL=".toList ++ p.host,
    binary, "serve".toList, "--port".toList, decimal port], none⟩
  if p.cwd ≠ [] then [⟨["cd".toList, p.cwd], some .andIf⟩, serve] else [serve]

/-- The login shell runs `bash` with the remote command, and that runs what the profile says. -/
def MeansProfile (p : Profile) (port : ℤ) : Prop :=
  loginShellRuns (tryServe p (serveBinary p) port) =
      some [⟨["bash".toList, "-ilc".toList, remoteCmd p (serveBinary p) port], none⟩] ∧
    Shell.parse (remoteCmd p (serveBinary p) port) = some (serveCommands p (serveBinary p) port)

/-- An `ssh` profile in serve mode of a file that `Validate` accepts. -/
def Accepted (p : Profile) : Prop :=
  p.type = profileTypeSSH ∧ (p.mode = [] ∨ p.mode = sshModeServe) ∧
    ∃ pf, validate pf = .ok () ∧ p ∈ pf.profiles

/-! ### Quoted text -/

theorem lex_escaped (cur : Option (List Char)) (w s r : List Char) :
    Shell.lex .single (Shell.push cur w)
      (s.flatMap (fun c => if c = '\'' then ['\'', '\\', '\'', '\''] else [c]) ++ '\'' :: r) =
    Shell.lex .plain (Shell.push cur (w ++ s)) r := by
  induction s generalizing w with
  | nil => rw [List.flatMap_nil, List.nil_append, Shell.lex_close, List.append_nil]
  | cons c s ih =>
    rw [List.flatMap_cons, List.append_assoc]
    split_ifs with hc
    · subst hc
      simp only [List.cons_append, List.nil_append]
      rw [Shell.lex_close, Shell.lex_escape (by decide), Shell.lex_open, Shell.push_push, Shell.push_push, ih]
      simp
    · rw [List.singleton_append, Shell.lex_single hc, Shell.push_push, ih, List.append_assoc]
      rfl

/-- The law of `ShellQuote`: whatever the text is, it is read as itself. -/
theorem reads_shellQuote (s : List Char) : Shell.Reads (shellQuote s) s := by
  intro cur r
  rw [shellQuote, List.append_assoc, List.singleton_append, List.cons_append, Shell.lex_open,
    lex_escaped, List.nil_append]

theorem isOrdinary_of_isDigit {c : Char} (h : c.isDigit = true) : Shell.isOrdinary c = true := by
  have hno : ∀ cs : List Char, (cs.all fun d => !d.isDigit) = true → cs.contains c = false := by
    intro cs hcs
    rw [← Bool.not_eq_true, List.contains_iff_mem]
    intro hc
    have hd := List.all_eq_true.1 hcs c hc
    rw [h] at hd
    cases hd
  rw [Shell.isOrdinary, Shell.isLeftOut, hno _ (by decide), hno _ (by decide)]
  rfl

theorem decimal_chars (n : ℤ) : ∀ c ∈ decimal n, c = '-' ∨ c.isDigit = true := by
  have hnat : ∀ m : ℕ, ∀ c ∈ m.repr.toList, c.isDigit = true := by
    intro m c hc
    rw [Nat.toList_repr] at hc
    exact Nat.isDigit_of_mem_toDigits (by decide) (by decide) hc
  intro c hc
  rw [decimal, Int.repr_eq_if] at hc
  split_ifs at hc
  · exact .inr (hnat _ c hc)
  · rw [String.toList_append, List.mem_append] at hc
    exact hc.imp (fun h => List.mem_singleton.1 h) (hnat _ c)

theorem decimal_ordinary (n : ℤ) : (decimal n).all Shell.isOrdinary = true := by
  rw [List.all_eq_true]
  intro c hc
  rcases decimal_chars n c hc with rfl | hd
  · rfl
  · exact isOrdinary_of_isDigit hd

theorem decimal_digit (n : ℤ) : ∃ c ∈ decimal n, c.isDigit = true := by
  have hnat : ∀ m : ℕ, ∃ c ∈ m.repr.toList, c.isDigit = true := by
    intro m
    rw [Nat.toList_repr]
    obtain ⟨c, cs, hc⟩ := List.exists_cons_of_ne_nil (Nat.toDigits_ne_nil (n := m) (b := 10))
    have hmem : c ∈ Nat.toDigits 10 m := by rw [hc]; exact List.mem_cons_self
    exact ⟨c, hmem, Nat.isDigit_of_mem_toDigits (by decide) (by decide) hmem⟩
  rw [decimal, Int.repr_eq_if]
  split_ifs
  · exact hnat _
  · obtain ⟨c, hc, hd⟩ := hnat (-n).toNat
    exact ⟨c, by rw [String.toList_append]; exact List.mem_append_right _ hc, hd⟩

theorem decimal_ne_nil (n : ℤ) : decimal n ≠ [] := by
  obtain ⟨c, hc, -⟩ := decimal_digit n
  exact List.ne_nil_of_mem hc

theorem reads_decimal (n : ℤ) : Shell.Reads (decimal n) (decimal n) :=
  Shell.reads_ordinary (decimal_ordinary n) (decimal_ne_nil n)

/-! ### The remote command for `bash` -/

theorem reads_word {w : String} (h : w.toList.all Shell.isOrdinary = true) (hne : w.toList ≠ []) :
    Shell.Reads w.toList w.toList := Shell.reads_ordinary h hne

/-- The texts of the serve command, before they are joined. -/
def serveTexts (p : Profile) (binary : List Char) (port : ℤ) : List (List Char) :=
  ["exec".toList, "env".toList, "MANY_AI_CLI_HOST_LABEL=".toList ++ shellQuote p.host, shellQuote binary,
    "serve".toList, "--port".toList, decimal port]

theorem serveTexts_read (p : Profile) (binary : List Char) (port : ℤ) :
    List.Forall₂ Shell.Reads (serveTexts p binary port)
      ["exec".toList, "env".toList, "MANY_AI_CLI_HOST_LABEL=".toList ++ p.host, binary,
        "serve".toList, "--port".toList, decimal port] := by
  refine .cons (reads_word (by decide) (by decide)) <| .cons (reads_word (by decide) (by decide)) <|
    .cons ?_ <| .cons (reads_shellQuote binary) <| .cons (reads_word (by decide) (by decide)) <|
    .cons (reads_word (by decide) (by decide)) <| .cons (reads_decimal port) .nil
  exact (reads_word (by decide) (by decide)).append (reads_shellQuote p.host)

theorem remoteCmd_nil {p : Profile} (h : p.cwd = []) (binary : List Char) (port : ℤ) :
    remoteCmd p binary port = [' '].intercalate (serveTexts p binary port) := by
  simp only [remoteCmd, h, ne_eq, not_true_eq_false, if_false, serveTexts, List.intercalate_cons_cons,
    List.intercalate_singleton, List.append_assoc]
  rfl

theorem remoteCmd_cwd {p : Profile} (h : p.cwd ≠ []) (binary : List Char) (port : ℤ) :
    remoteCmd p binary port = ([' '].intercalate ["cd".toList, shellQuote p.cwd]) ++
      ' ' :: '&' :: '&' :: ' ' :: [' '].intercalate (serveTexts p binary port) := by
  simp only [remoteCmd, h, ne_eq, not_false_eq_true, if_true, serveTexts, List.intercalate_cons_cons,
    List.intercalate_singleton, List.append_assoc]
  rfl

/-- Read by a shell of its own, the remote command is what the profile asks for. -/
theorem parse_remoteCmd (p : Profile) (binary : List Char) (port : ℤ) :
    Shell.parse (remoteCmd p binary port) = some (serveCommands p binary port) := by
  have hserve := Shell.parse_intercalate (serveTexts_read p binary port) (by decide)
  by_cases h : p.cwd = []
  · rw [remoteCmd_nil h, hserve, serveCommands, if_neg (not_not.2 h)]
  · have hcd : List.Forall₂ Shell.Reads ["cd".toList, shellQuote p.cwd] ["cd".toList, p.cwd] :=
      .cons (reads_word (by decide) (by decide)) <| .cons (reads_shellQuote p.cwd) .nil
    rw [remoteCmd_cwd h, Shell.parse_andIf hcd (by decide) hserve (List.cons_ne_nil _ _), serveCommands,
      if_pos h]

/-! ### What the login shell runs -/

theorem sshCommand_append {args rest : List (List Char)} (h : ∀ a ∈ args, a ≠ "--".toList)
    (hz : (args ++ "--".toList :: rest).any (·.contains '\x00') = false) :
    sshCommand (args ++ "--".toList :: rest) = some ([' '].intercalate rest) := by
  rw [sshCommand, if_neg (by simp only [hz, Bool.false_eq_true, not_false_eq_true]),
    List.dropWhile_append_of_pos (fun a ha => by simpa using h a ha),
    List.dropWhile_cons_of_neg (by simp), List.drop_one, List.tail_cons]

theorem ne_dashes_of_head? {s : List Char} (h : s.head? ≠ some '-') : s ≠ "--".toList := by
  rintro rfl
  exact h rfl

theorem ne_dashes_of_mem {s : List Char} {c : Char} (h : c ∈ s) (hc : c ≠ '-') : s ≠ "--".toList := by
  rintro rfl
  have hd : ("--".toList.all fun d => d = '-') = true := by decide
  exact hc (of_decide_eq_true (List.all_eq_true.1 hd c h))

/-- No option or destination of an accepted profile passes for the `--`. -/
theorem Accepted.ne_dashes {p : Profile} (h : Accepted p) :
    sshTarget p ≠ "--".toList ∧ ∀ a ∈ buildSSHBaseArgs p, a ≠ "--".toList := by
  obtain ⟨ht, -, pf, hv, hp⟩ := h
  obtain ⟨i, hi⟩ := validateSSH_of_validateFrom hv hp ht
  have hd := (validateSSH_ok hi).1
  simp only [List.forall_mem_cons] at hd
  obtain ⟨hhost, huser, -, hkey, -⟩ := hd
  constructor
  · unfold sshTarget
    split_ifs with hu
    · exact ne_dashes_of_mem (c := '@') (by simp) (by decide)
    · by_cases hn : p.Normal
      · rw [normalizeProfile_of_normal hn] at hhost
        exact ne_dashes_of_head? hhost
      · have hat : p.host.contains '@' = true := by
          by_contra hc
          exact hn fun _ => by simpa using hc
        exact ne_dashes_of_mem (c := '@') (by simpa using hat) (by decide)
  · intro a ha
    simp only [buildSSHBaseArgs, List.mem_append, List.mem_cons, List.not_mem_nil, or_false] at ha
    rcases ha with ((rfl | rfl | rfl | rfl | rfl | rfl) | ha) | ha
    any_goals decide
    · split_ifs at ha
      · rcases List.mem_pair.1 ha with rfl | rfl
        · decide
        · obtain ⟨c, hc, hd⟩ := decimal_digit p.sshPort
          exact ne_dashes_of_mem hc (by rintro rfl; cases hd)
      · cases ha
    · split_ifs at ha
      · rcases List.mem_pair.1 ha with rfl | rfl
        · decide
        · exact ne_dashes_of_head? hkey
      · cases ha

theorem Accepted.serveArgs_ne_dashes {p : Profile} (h : Accepted p) (port : ℤ) :
    ∀ a ∈ serveArgs p port, a ≠ "--".toList := by
  intro a ha
  rcases List.mem_append.1 ha with ha | ha
  · exact h.ne_dashes.2 a ha
  · simp only [List.mem_cons, List.not_mem_nil, or_false] at ha
    rcases ha with rfl | rfl | rfl | rfl
    · decide
    · decide
    · exact ne_dashes_of_mem (c := '1') (by simp) (by decide)
    · exact h.ne_dashes.1

/-- A joined text as the last one of a join. -/
theorem intercalate_nested (a b r : List Char) {ts : List (List Char)} (h : ts ≠ []) :
    [' '].intercalate [a, b, [' '].intercalate ts ++ r] = [' '].intercalate (a :: b :: ts) ++ r := by
  obtain ⟨t, ts, rfl⟩ := List.exists_cons_of_ne_nil h
  simp only [List.intercalate_cons_cons, List.intercalate_singleton, List.append_assoc]

/-- The commands of the login shell: `bash` gets the first word of the remote command only. -/
def loginCommands (p : Profile) (binary : List Char) (port : ℤ) : List Shell.Command :=
  let serve := ["exec".toList, "env".toList, "MANY_AI_CLI_HOST_LABEL=".toList ++ p.host, binary,
    "serve".toList, "--port".toList, decimal port]
  if p.cwd ≠ [] then
    [⟨["bash".toList, "-ilc".toList, "cd".toList, p.cwd], some .andIf⟩, ⟨serve, none⟩]
  else [⟨"bash".toList :: "-ilc".toList :: serve, none⟩]

/-- Without a directory `bash` runs `exec` with nothing to execute; with one, `bash` changes to
no directory and the login shell itself starts the binary, where it is. -/
theorem loginShellRuns_tryServe {p : Profile} (h : Accepted p) (binary : List Char) (port : ℤ)
    (hz : (tryServe p binary port).any (·.contains '\x00') = false) :
    loginShellRuns (tryServe p binary port) = some (loginCommands p binary port) := by
  rw [loginShellRuns, tryServe, sshCommand_append (h.serveArgs_ne_dashes port) hz, Option.bind_some,
    loginCommands]
  have hbash := reads_word (w := "bash") (by decide) (by decide)
  have hilc := reads_word (w := "-ilc") (by decide) (by decide)
  have hserve := serveTexts_read p binary port
  by_cases hc : p.cwd = []
  · have hne : serveTexts p binary port ≠ [] := List.cons_ne_nil _ _
    have htext := intercalate_nested "bash".toList "-ilc".toList [] hne
    rw [List.append_nil, List.append_nil] at htext
    rw [remoteCmd_nil hc, if_neg (not_not.2 hc), htext,
      Shell.parse_intercalate (.cons hbash (.cons hilc hserve)) (by decide)]
  · have hcd : List.Forall₂ Shell.Reads ["cd".toList, shellQuote p.cwd] ["cd".toList, p.cwd] :=
      .cons (reads_word (by decide) (by decide)) <| .cons (reads_shellQuote p.cwd) .nil
    rw [remoteCmd_cwd hc, if_pos hc, intercalate_nested _ _ _ (List.cons_ne_nil _ _),
      Shell.parse_andIf (.cons hbash (.cons hilc hcd)) (by decide)
        (Shell.parse_intercalate hserve (by decide)) (List.cons_ne_nil _ _)]

/-- The login shell never runs the one command it is meant to. -/
theorem serve_not_meansProfile {p : Profile} (h : Accepted p) (port : ℤ) : ¬ MeansProfile p port := by
  rintro ⟨hl, -⟩
  by_cases hz : (tryServe p (serveBinary p) port).any (·.contains '\x00') = true
  · rw [loginShellRuns, sshCommand, if_pos hz] at hl
    cases hl
  · rw [loginShellRuns_tryServe h _ _ (by simpa only [Bool.not_eq_true] using hz), loginCommands] at hl
    -- another number of commands with a directory, of words without one
    split_ifs at hl
    · have hlen := congrArg List.length (Option.some.inj hl)
      simp at hlen
    · have hlen := congrArg (fun cs => (cs.map (·.words.length)).sum) (Option.some.inj hl)
      simp at hlen

/-- A profile with a directory. -/
def devbox : Profile :=
  { name := "dev".toList, type := profileTypeSSH, host := "box".toList, cwd := "/srv/app".toList }

theorem accepted_devbox : Accepted devbox :=
  ⟨rfl, .inl rfl, { version := 1, profiles := [devbox] }, by decide +kernel, List.mem_singleton.2 rfl⟩

theorem devbox_not_meansProfile : ¬ MeansProfile devbox 47777 :=
  serve_not_meansProfile accepted_devbox 47777

/-- `cd` gets no directory and the binary is started by the login shell, in its own directory. -/
theorem devbox_starts_outside :
    Accepted devbox ∧
      loginShellRuns (tryServe devbox (serveBinary devbox) 47777) =
        some [⟨["bash".toList, "-ilc".toList, "cd".toList, "/srv/app".toList], some .andIf⟩,
          ⟨["exec".toList, "env".toList, "MANY_AI_CLI_HOST_LABEL=box".toList, "many-ai-cli".toList,
            "serve".toList, "--port".toList, "47777".toList], none⟩] ∧
      ¬ MeansProfile devbox 47777 := by
  have hruns : loginShellRuns (tryServe devbox (serveBinary devbox) 47777) =
      some [⟨["bash".toList, "-ilc".toList, "cd".toList, "/srv/app".toList], some .andIf⟩,
        ⟨["exec".toList, "env".toList, "MANY_AI_CLI_HOST_LABEL=box".toList, "many-ai-cli".toList,
          "serve".toList, "--port".toList, "47777".toList], none⟩] := by decide +kernel
  refine ⟨accepted_devbox, hruns, fun h => ?_⟩
  have hlen := congrArg (Option.map List.length) (hruns.symm.trans h.1)
  cases hlen

/-! ### Quoted once more -/

/-- Quoted as a whole, a text is one argument of the remote command. -/
theorem loginShellRuns_quoted {args : List (List Char)} (h : ∀ a ∈ args, a ≠ "--".toList)
    {name option : String} (hn : name.toList.all Shell.isOrdinary = true) (hne : name.toList ≠ [])
    (ho : option.toList.all Shell.isOrdinary = true) (hoe : option.toList ≠ [])
    (hname : Shell.isName name.toList = true) {s : List Char}
    (hz : (args ++ ["--".toList, name.toList, option.toList, shellQuote s]).any (·.contains '\x00') = false) :
    loginShellRuns (args ++ ["--".toList, name.toList, option.toList, shellQuote s]) =
      some [⟨[name.toList, option.toList, s], none⟩] := by
  rw [loginShellRuns, sshCommand_append h hz, Option.bind_some]
  exact Shell.parse_intercalate
    (.cons (reads_word hn hne) <| .cons (reads_word ho hoe) <| .cons (reads_shellQuote s) .nil) hname

/-- The clean-up quotes its pattern and runs as meant. -/
theorem loginShellRuns_cleanup {p : Profile} (h : Accepted p) (binary : List Char) (port : ℤ)
    (hz : (cleanupSSHOrphans p binary port).any (·.contains '\x00') = false) :
    loginShellRuns (cleanupSSHOrphans p binary port) =
      some [⟨["pkill".toList, "-f".toList,
        quoteMeta binary ++ " serve --port ".toList ++ decimal port], none⟩] := by
  have hcons : cleanupSSHOrphans p binary port = (buildSSHBaseArgs p ++ [sshTarget p]) ++
      ["--".toList, "pkill".toList, "-f".toList,
        shellQuote (quoteMeta binary ++ " serve --port ".toList ++ decimal port)] := by
    rw [List.append_assoc]
    rfl
  rw [hcons] at hz ⊢
  refine loginShellRuns_quoted (fun a ha => ?_) (by decide) (by decide) (by decide) (by decide) (by decide) hz
  rcases List.mem_append.1 ha with ha | ha
  · exact h.ne_dashes.2 a ha
  · rw [List.mem_singleton.1 ha]
    exact h.ne_dashes.1

/-- So would the serve command, for every profile. -/
theorem loginShellRuns_serve_quoted {p : Profile} (h : Accepted p) (binary : List Char) (port : ℤ)
    (hz : (serveArgs p port ++ ["--".toList, "bash".toList, "-ilc".toList,
      shellQuote (remoteCmd p binary port)]).any (·.contains '\x00') = false) :
    loginShellRuns (serveArgs p port ++ ["--".toList, "bash".toList, "-ilc".toList,
        shellQuote (remoteCmd p binary port)]) =
      some [⟨["bash".toList, "-ilc".toList, remoteCmd p binary port], none⟩] :=
  loginShellRuns_quoted (h.serveArgs_ne_dashes port) (by decide) (by decide) (by decide) (by decide)
    (by decide) hz

end ManyAiCli.Launcher
