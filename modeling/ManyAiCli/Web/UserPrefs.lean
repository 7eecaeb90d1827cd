import ManyAiCli.Text.Json
import ManyAiCli.Text.Strings
import Mathlib.Data.List.Nodup
import Mathlib.Logic.Function.Basic

/-! User preferences in a browser (`user-prefs.ts`) and in the hub (`user_prefs_handlers.go`). A browser
keeps each of them as a text under a key of its own; the hub keeps them as one value with typed fields,
which is replaced as a whole and shown without the fields that are zero. -/

namespace ManyAiCli.Web.UserPrefs

open Text Function

/-- The value at the end of each path; the hub's objects hold nothing else. -/
abbrev Prefs := List Char → Option Json

abbrev Storage := List Char → Option (List Char)

/-! ### Rows that write -/

section Overwrite

variable {ι α β : Type*} [DecidableEq α]

/-- Each row in turn writes its value, if it has one, at its place. -/
def overwrite (place : ι → α) (value : ι → Option β) (rows : List ι) (f : α → Option β) : α → Option β :=
  rows.foldl (fun f row => match value row with
    | none => f
    | some v => update f (place row) (some v)) f

theorem overwrite_cons (place : ι → α) (value : ι → Option β) (row : ι) (rows : List ι) (f : α → Option β) :
    overwrite place value (row :: rows) f = overwrite place value rows (match value row with
      | none => f
      | some v => update f (place row) (some v)) := rfl

/-- A place that no row writes at. -/
theorem overwrite_of_ne {place : ι → α} {value : ι → Option β} {rows : List ι} {a : α}
    (h : ∀ row ∈ rows, (value row).isSome → place row ≠ a) (f : α → Option β) :
    overwrite place value rows f a = f a := by
  induction rows generalizing f with
  | nil => rfl
  | cons row rows ih =>
    rw [overwrite_cons, ih fun r hr => h r (List.mem_cons_of_mem _ hr)]
    cases hValue : value row with
    | none => rfl
    | some v =>
      have hPlace := h row List.mem_cons_self (by rw [hValue]; rfl)
      exact update_of_ne hPlace.symm _ _

/-- Where the places are distinct, a row's value stands at its place, and what was there if it has none. -/
theorem overwrite_of_mem {place : ι → α} (value : ι → Option β) {rows : List ι}
    (hDistinct : (rows.map place).Nodup)
    {row : ι} (hRow : row ∈ rows) (f : α → Option β) :
    overwrite place value rows f (place row) = (value row).or (f (place row)) := by
  induction rows generalizing f with
  | nil => exact absurd hRow List.not_mem_nil
  | cons first rows ih =>
    rw [List.map_cons, List.nodup_cons] at hDistinct
    rw [overwrite_cons]
    rcases List.mem_cons.1 hRow with rfl | hLater
    · rw [overwrite_of_ne]
      · cases value row with
        | none => rfl
        | some v => exact update_self _ _ _
      · intro r hr _ hSame
        exact hDistinct.1 (hSame ▸ List.mem_map_of_mem hr)
    · rw [ih hDistinct.2 hLater]
      have hPlace : place row ≠ place first := by
        intro hSame
        exact hDistinct.1 (hSame ▸ List.mem_map_of_mem hLater)
      cases value first with
      | none => rfl
      | some v => exact congrArg ((value row).or ·) (update_of_ne hPlace _ _)

end Overwrite

/-! ### The browser -/

/-- What the language does with values of JSON and with texts; a `none` is an exception or `NaN`. An object
that was parsed has each name once. -/
structure Js where
  parse : List Char → Option Json
  stringify : Json → List Char
  text : Json → List Char
  parseInt : List Char → Option ℤ
  showInt : ℤ → List Char
  /-- `s.trim().slice(0, 8000)`. -/
  body : List Char → List Char
  /-- `Math.max(0, Math.min(100000, Number(v) || 0))`. -/
  frequency : Json → List Char

inductive Serializer
  | flag
  | text
  | json
  | locked
  deriving DecidableEq

/-- A path, the key of the local storage for it, and how a value is written there. -/
structure Row where
  path : List Char
  key : List Char
  serializer : Serializer

/-- `_USER_PREFS_PATH_TO_LS`. -/
def pathToLS : List Row :=
  [("trigger.enabled", "ai_cli_hub_trigger_enabled", .flag),
    ("trigger.phrase", "ai_cli_hub_trigger_phrase", .text),
    ("notify_sound.enabled", "ai_cli_hub_notify_sound_enabled", .flag),
    ("notify_sound.type", "ai_cli_hub_notify_sound_type", .text),
    ("desktop_notifications.enabled", "ai_cli_hub_desktop_notify_enabled", .flag),
    ("push_notifications.enabled", "ai_cli_hub_push_notify_enabled", .flag),
    ("voice.grace_seconds", "ai_cli_hub_voice_grace_seconds", .text),
    ("voice.input_disabled", "ai_cli_hub_voice_input_disabled", .flag),
    ("voice.wake_word_enabled", "ai_cli_hub_wake_word_enabled", .flag),
    ("voice.wake_word_phrase", "ai_cli_hub_wake_word_phrase", .text),
    ("quick_cmds.cmd1", "ai_cli_hub_quick_cmd_1", .text),
    ("quick_cmds.cmd2", "ai_cli_hub_quick_cmd_2", .text),
    ("quick_cmds.cmd3", "ai_cli_hub_quick_cmd_3", .text),
    ("quick_cmds.cmd4", "ai_cli_hub_quick_cmd_4", .text),
    ("quick_cmds.cmd5", "ai_cli_hub_quick_cmd_5", .text),
    ("quick_cmds.show1", "ai_cli_hub_quick_cmd_1_show", .flag),
    ("quick_cmds.show2", "ai_cli_hub_quick_cmd_2_show", .flag),
    ("quick_cmds.show3", "ai_cli_hub_quick_cmd_3_show", .flag),
    ("quick_cmds.show4", "ai_cli_hub_quick_cmd_4_show", .flag),
    ("quick_cmds.show5", "ai_cli_hub_quick_cmd_5_show", .flag),
    ("templates", "ai_cli_hub_prompt_templates", .json),
    ("usage_links.claude", "ai_cli_hub_usage_link_claude", .text),
    ("usage_links.codex", "ai_cli_hub_usage_link_codex", .text),
    ("usage_links.copilot", "ai_cli_hub_usage_link_copilot", .text),
    ("usage_links.cursor-agent", "ai_cli_hub_usage_link_cursor_agent", .text),
    ("usage_links.ollama", "ai_cli_hub_usage_link_ollama", .text),
    ("usage_links.lm-studio", "ai_cli_hub_usage_link_lm_studio", .text),
    ("usage_links.opencode", "ai_cli_hub_usage_link_opencode", .text),
    ("usage_links.grok", "ai_cli_hub_usage_link_grok", .text),
    ("session_order", "ai_cli_hub_session_order", .json), ("group_order", "ai_cli_hub_group_order", .json),
    ("project_favorites", "ai_cli_hub_project_favorites", .json),
    ("cwd_history", "ai_cli_hub_cwd_history", .json), ("cwd_favorites", "ai_cli_hub_cwd_favorites", .json),
    ("approval.auto_switch", "ai_cli_hub_approval_auto_switch", .flag),
    ("approval.auto_approval_enabled", "ai_cli_hub_auto_approval_enabled", .flag),
    ("approval.high_risk_confirmation_mode", "ai_cli_hub_high_risk_confirmation_mode", .text),
    ("pc.input_tools_enabled", "ai_cli_hub_pc_input_tools", .flag),
    ("mobile.input_tools_enabled", "ai_cli_hub_mobile_input_tools", .flag),
    ("mobile.voice_hint_shown", "ai_cli_hub_mobile_voice_hint_shown", .flag),
    ("spawn.defaults", "ai_cli_hub_spawn_settings", .json),
    ("display.locked_mode", "ai_cli_hub_display_locked_mode", .locked),
    ("display.theme", "ai_cli_hub_theme", .text), ("display.font_size", "ai_cli_hub_fontsize", .text),
    ("display.lang", "ai_cli_hub_lang", .text),
    ("display.live_status_bg", "ai_cli_hub_live_status_bg", .text),
    ("display.live_status_fg", "ai_cli_hub_live_status_fg", .text)].map
    fun row : String × String × Serializer => ⟨row.1.toList, row.2.1.toList, row.2.2⟩

/-- A number is false where no digit of it before the exponent is other than zero. -/
def truthy : Json → Bool
  | .null => false
  | .bool b => b
  | .num raw => (raw.takeWhile fun c => c ≠ 'e' ∧ c ≠ 'E').any fun c => '1' ≤ c ∧ c ≤ '9'
  | .str s => s ≠ []
  | .arr _ => true
  | .obj _ => true

def serialize (js : Js) : Serializer → Json → List Char
  | .flag, v => if truthy v then ['1'] else ['0']
  | .text, v => js.text v
  | .json, v => js.stringify v
  | .locked, .null => []
  | .locked, .str s => if s = [] then [] else js.text (.str s)
  | .locked, v => js.text v

def nullText : List Char := ['n', 'u', 'l', 'l']

/-- The part of `setUserPref` about the local storage. -/
def setLocal (js : Js) (path : List Char) (v : Json) (store : Storage) : Storage :=
  match pathToLS.find? fun row => row.path = path with
  | none => store
  | some row =>
    update store row.key
      (if serialize js row.serializer v = nullText then none else some (serialize js row.serializer v))

def stringPaths : List (List Char) :=
  ["trigger.phrase", "notify_sound.type", "voice.wake_word_phrase", "quick_cmds.cmd1", "quick_cmds.cmd2",
    "usage_links.claude", "usage_links.codex", "usage_links.copilot", "usage_links.cursor-agent",
    "usage_links.ollama", "usage_links.opencode", "usage_links.grok", "display.locked_mode", "display.theme",
    "display.font_size", "display.lang", "display.live_status_bg", "display.live_status_fg"].map String.toList

def stringArrayPaths : List (List Char) :=
  ["session_order", "group_order", "project_favorites", "cwd_history", "cwd_favorites"].map String.toList

/-- The paths of which a text is read as a flag. -/
def isFlagPath (path : List Char) : Bool :=
  ".enabled".toList.isSuffixOf path ||
    (["voice.wake_word_enabled", "voice.input_disabled", "approval.auto_switch",
      "approval.auto_approval_enabled",
      "quick_cmds.show1", "quick_cmds.show2", "quick_cmds.show3", "quick_cmds.show4", "quick_cmds.show5"].any
      fun name => path = name.toList)

/-- What an object has under a name. -/
def member (ms : List (List Char × Json)) (name : String) : Json := (ms.lookup name.toList).getD .null

def strings : Json → List (List Char)
  | .arr xs => xs.filterMap fun
    | .str s => some s
    | _ => none
  | _ => []

/-- A template of the list, without its label. -/
def storedTemplate (js : Js) : Json → Option Json
  | .obj ms =>
    match member ms "body" with
    | .str s => some (.obj [("body".toList, .str (js.body s)),
        ("providers".toList, .arr (((strings (member ms "providers")).take 10).map .str)),
        ("tags".toList, .arr (((strings (member ms "tags")).take 10).map .str)),
        ("frequency".toList, .num (js.frequency (member ms "frequency")))])
    | _ => none
  | _ => none

def hasBody : Json → Bool
  | .obj ms => match member ms "body" with
    | .str s => s ≠ []
    | _ => false
  | _ => false

/-- `_parseStoredUserPref`; `none` where it is not `ok`. -/
def parseStored (js : Js) (path raw : List Char) : Option Json :=
  let parsed := (js.parse raw).getD (.str raw)
  if isFlagPath path then
    some (.bool (raw = ['1'] || raw = ['t', 'r', 'u', 'e'] || (match parsed with | .bool b => b | _ => false)))
  else if path = "voice.grace_seconds".toList then
    some (.num (js.showInt (match js.parseInt (js.text parsed) with | some n => max 0 n | none => 0)))
  else if path = "approval.high_risk_confirmation_mode".toList then
    some (.str (if raw = "dialog".toList then "dialog".toList else "hold".toList))
  else if stringPaths.any fun p => path = p then
    some (.str (match parsed with | .null => [] | v => js.text v))
  else if stringArrayPaths.any fun p => path = p then
    match parsed with
    | .arr xs => some (.arr ((strings (.arr xs)).map .str))
    | _ => none
  else if path = "templates".toList then
    match parsed with
    | .arr xs => some (.arr (((xs.filterMap fun v => (storedTemplate js v)).take 100).filter hasBody))
    | _ => none
  else if path = "spawn.defaults".toList then
    match parsed with
    | .obj ms => some (.obj (ms.filter fun m => match m.2 with | .str _ => true | _ => false))
    | _ => none
  else some parsed

/-- `_mergeStoredUserPrefs`: what the browser has stored is written over what the hub has shown. -/
def mergeStored (js : Js) (store : Storage) (current : Prefs) : Prefs :=
  overwrite Row.path (fun row => (store row.key).bind (parseStored js row.path)) pathToLS current

/-- The text for the local storage of what the hub shows under a path. -/
def mirroredText (js : Js) (prefs : Prefs) (row : Row) : Option (List Char) :=
  match prefs row.path with
  | none => none
  | some .null => none
  | some v => if serialize js row.serializer v = nullText then none else some (serialize js row.serializer v)

/-- The loop of `_mirrorUserPrefsFromServer`. -/
def mirror (js : Js) (prefs : Prefs) (store : Storage) : Storage :=
  overwrite Row.key (mirroredText js prefs) pathToLS store

/-! ### The hub -/

/-- How a field of `UserPrefs` is typed; all but the pointers to a flag are left out of an answer when zero. -/
inductive Field
  | flag
  | pointer
  | text
  | int
  | texts
  | templates
  | textMap
  | flagMap
  deriving DecidableEq

/-- The fields of `config.UserPrefs` with those of its parts. -/
def fields : List (List Char × Field) :=
  [("trigger.enabled", .flag), ("trigger.phrase", .text), ("notify_sound.enabled", .flag),
    ("notify_sound.type", .text), ("notify_sound.custom_file", .text), ("notify_sound.custom_mime", .text),
    ("desktop_notifications.enabled", .flag), ("push_notifications.enabled", .flag),
      ("approval.auto_switch", .flag),
    ("approval.auto_approval_enabled", .flag), ("approval.high_risk_confirmation_mode", .text),
    ("quick_cmds.cmd1", .text), ("quick_cmds.cmd2", .text), ("quick_cmds.cmd3", .text),
      ("quick_cmds.cmd4", .text),
    ("quick_cmds.cmd5", .text), ("quick_cmds.show1", .pointer), ("quick_cmds.show2", .pointer),
    ("quick_cmds.show3", .pointer), ("quick_cmds.show4", .pointer), ("quick_cmds.show5", .pointer),
    ("templates", .templates), ("usage_links.claude", .text), ("usage_links.codex", .text),
    ("usage_links.copilot", .text), ("usage_links.cursor-agent", .text), ("usage_links.opencode", .text),
    ("usage_links.grok", .text), ("voice.grace_seconds", .int), ("voice.wake_word_enabled", .flag),
    ("voice.wake_word_phrase", .text), ("voice.input_disabled", .flag), ("session_order", .texts),
    ("group_order", .texts), ("project_favorites", .texts), ("cwd_history", .texts), ("cwd_favorites", .texts),
    ("spawn.defaults", .textMap), ("spawn.last_model", .textMap), ("spawn.worktree_auto", .flag),
    ("spawn.worktree_cleanup", .text), ("display.theme", .text), ("display.font_size", .text),
    ("display.lang", .text), ("display.locked_mode", .text), ("display.live_status_bg", .text),
    ("display.live_status_fg", .text), ("migrated_from_localstorage", .flag), ("avatar", .text),
    ("display_name", .text), ("token_statusbar.enabled", .pointer), ("token_statusbar.segments", .flagMap),
    ("done_summary_notify.enabled", .flag)].map fun row : String × Field => (row.1.toList, row.2)

/-- A number of JSON as an `int`. -/
def intOf (raw : List Char) : Option ℤ :=
  let digits := if raw.head? = some '-' then raw.tail else raw
  let n : ℕ := digits.foldl (fun n c => n * 10 + (c.toNat - 48)) 0
  if digits = [] ∨ ¬ digits.all Json.isDigit then none
  else if raw.head? = some '-' then (if n ≤ 0x8000000000000000 then some (-n) else none)
  else if n < 0x8000000000000000 then some n
  else none

def textField (ms : List (List Char × Json)) (name : String) : Option (List Char) :=
  match member ms name with
  | .null => some []
  | .str s => some s
  | _ => none

def intField (ms : List (List Char × Json)) (name : String) : Option (Option (List Char)) :=
  match member ms name with
  | .null => some none
  | .num raw => (intOf raw).map fun n => if n = 0 then none else some raw
  | _ => none

/-- A `UserPrefsTemplate` as it is shown after it was read. -/
def decodeTemplate : Json → Option Json
  | .null => some (.obj [("label".toList, .str []), ("body".toList, .str [])])
  | .obj ms => do
    let label ← textField ms "label"
    let body ← textField ms "body"
    let providers ← Json.texts (member ms "providers")
    let tags ← Json.texts (member ms "tags")
    let frequency ← intField ms "frequency"
    some (.obj ([("label".toList, .str label), ("body".toList, .str body)] ++
      (if providers = [] then [] else [("providers".toList, .arr (providers.map .str))]) ++
      (if tags = [] then [] else [("tags".toList, .arr (tags.map .str))]) ++
      frequency.toList.map fun raw => ("frequency".toList, .num raw)))
  | _ => none

/-- A value of a map with a zero in the place of `null`. -/
def mapValue (zero : Json) (fits : Json → Bool) (m : List Char × Json) : Option (List Char × Json) :=
  match m.2 with
  | .null => some (m.1, zero)
  | v => if fits v then some (m.1, v) else none

def isText : Json → Bool
  | .str _ => true
  | _ => false

def isFlag : Json → Bool
  | .bool _ => true
  | _ => false

/-- What is shown of a field that a value was read into; `none` where the value does not fit. -/
def decodeField : Field → Json → Option (Option Json)
  | _, .null => some none
  | .flag, .bool b => some (if b then some (.bool true) else none)
  | .pointer, .bool b => some (some (.bool b))
  | .text, .str s => some (if s = [] then none else some (.str s))
  | .int, .num raw => (intOf raw).map fun n => if n = 0 then none else some (.num raw)
  | .texts, .arr xs => (Json.texts (.arr xs)).map fun ss => if ss = [] then none else some (.arr (ss.map .str))
  | .templates, .arr xs => (xs.mapM decodeTemplate).map fun ts => if ts.isEmpty then none else some (.arr ts)
  | .textMap, .obj ms => (ms.mapM (mapValue (.str []) isText)).map fun ms =>
    if ms.isEmpty then none else some (.obj ms)
  | .flagMap, .obj ms => (ms.mapM (mapValue (.bool false) isFlag)).map fun ms =>
    if ms.isEmpty then none else some (.obj ms)
  | _, _ => none

/-- What is shown under a path after a value was accepted for it. -/
def kept (path : List Char) (v : Json) : Option Json :=
  (fields.lookup path).bind fun field => (decodeField field v).getD none

def avatarPath : List Char := "avatar".toList

/-- `sanitizeAvatarPref`, with the comparison to the path of an upload. -/
def sanitizeAvatarPref (isUpload : List Char → Bool) (avatar : List Char) : List Char :=
  let avatar := trimSpace avatar
  if avatar = [] then []
  else if "http://".toList.isPrefixOf avatar || "https://".toList.isPrefixOf avatar then avatar
  else if isUpload avatar then avatar
  else []

/-- The avatar of the fields that were read, as it is shown. -/
def avatarKept (isUpload : List Char → Bool) : Option Json → Option Json
  | some (.str s) => if sanitizeAvatarPref isUpload s = [] then none
    else some (.str (sanitizeAvatarPref isUpload s))
  | _ => none

/-- `handleUserPrefsPut`: what is shown afterwards; `none` where the body does not fit and nothing changes. -/
def handleUserPrefsPut (isUpload : List Char → Bool) (body : Prefs) : Option Prefs :=
  if fields.all fun row => (decodeField row.2 ((body row.1).getD .null)).isSome then
    some (update (fun path => (body path).bind (kept path)) avatarPath
      (avatarKept isUpload ((body avatarPath).bind (kept avatarPath))))
  else none

/-! ### What is written where -/

theorem paths_nodup : (pathToLS.map Row.path).Nodup := by decide +kernel

theorem keys_nodup : (pathToLS.map Row.key).Nodup := by decide +kernel

def migratedPath : List Char := "migrated_from_localstorage".toList

def enabledPath : List Char := "token_statusbar.enabled".toList

def segmentsPath : List Char := "token_statusbar.segments".toList

/-- The fields that a handler of the hub sets by itself. -/
def ownPaths : List (List Char) :=
  [avatarPath, "notify_sound.custom_file".toList, "notify_sound.custom_mime".toList]

/-- No browser keeps them. -/
theorem path_not_own : pathToLS.all (fun row => row.path ∉ migratedPath :: ownPaths) = true := by decide +kernel

theorem path_ne_own {row : Row} (h : row ∈ pathToLS) : row.path ∉ migratedPath :: ownPaths :=
  of_decide_eq_true (List.all_eq_true.1 path_not_own row h)

theorem mem_ownPaths {path : List Char} (h : (ownPaths.any fun p => path = p) = true) : path ∈ ownPaths := by
  obtain ⟨p, hp, hSame⟩ := List.any_eq_true.1 h
  rw [of_decide_eq_true hSame]
  exact hp

/-- A merged preference is what the browser has stored of it, if that can be read, and else what the hub has
shown. -/
theorem mergeStored_apply (js : Js) (store : Storage) (current : Prefs) {row : Row} (h : row ∈ pathToLS) :
    mergeStored js store current row.path =
      ((store row.key).bind (parseStored js row.path)).or (current row.path) :=
  overwrite_of_mem (fun r : Row => (store r.key).bind (parseStored js r.path)) paths_nodup h current

theorem mirror_apply (js : Js) (prefs : Prefs) (store : Storage) {row : Row} (h : row ∈ pathToLS) :
    mirror js prefs store row.key = (mirroredText js prefs row).or (store row.key) :=
  overwrite_of_mem (mirroredText js prefs) keys_nodup h store

/-- Setting one preference leaves the text of every other as it is. -/
theorem setLocal_of_ne (js : Js) {path : List Char} (v : Json) (store : Storage) {row : Row}
    (h : row ∈ pathToLS)
    (hPath : row.path ≠ path) : setLocal js path v store row.key = store row.key := by
  rw [setLocal]
  cases hFind : pathToLS.find? fun r => r.path = path with
  | none => rfl
  | some found =>
    have hFound : found ∈ pathToLS := List.mem_of_find?_eq_some hFind
    have hSame : found.path = path := by simpa using List.find?_some hFind
    have hKey : row.key ≠ found.key := by
      intro hEq
      have hRow := List.inj_on_of_nodup_map keys_nodup h hFound hEq
      exact hPath (hRow ▸ hSame)
    exact update_of_ne hKey _ _

/-- What is shown of an accepted body under a path that browsers keep. -/
theorem handleUserPrefsPut_apply {isUpload : List Char → Bool} {body prefs : Prefs}
    (h : handleUserPrefsPut isUpload body = some prefs) {row : Row} (hRow : row ∈ pathToLS) :
    prefs row.path = (body row.path).bind (kept row.path) := by
  rw [handleUserPrefsPut] at h
  split_ifs at h
  rw [← Option.some.inj h]
  apply update_of_ne
  intro hAvatar
  exact path_ne_own hRow (by rw [hAvatar]; exact List.mem_cons_of_mem _ List.mem_cons_self)

/-- A flag that is off is not shown. -/
theorem kept_flag {path : List Char} (h : fields.lookup path = some .flag) (v : Json) :
    kept path v = none ∨ kept path v = some (.bool true) := by
  rw [kept, h, Option.bind_some]
  cases v with
  | bool b => cases b <;> simp [decodeField]
  | _ => exact .inl rfl

end ManyAiCli.Web.UserPrefs
