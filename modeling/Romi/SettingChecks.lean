import Romi.AgentCounters
import Romi.SignInSteps
import Romi.WebhookBodies

/-!
# Acceptable settings

Every field of a patch is checked before any of them is stored. What the
checks ask of URLs, of header fields and of the calendar is outside the hub.
-/

namespace Romi.SettingChecks

open AgentCounters JsonValue NotifySweep SignInSteps

/-- What the checks read of a URL. -/
structure Url where
  /-- What stands before the colon. -/
  scheme : String
  /-- The host, when it has one. -/
  host : Option String
  /-- The user name, empty when there is none. -/
  username : String
  /-- The password. -/
  password : Option String
  /-- What stands after the hash sign. -/
  fragment : Option String

/-- What the checks take from elsewhere. -/
structure Checks where
  /-- `Url::parse`. -/
  parseUrl : String → Option Url
  /-- `HeaderName::try_from`, with the name it makes of the text. -/
  headerName : List Char → Option (List Char)
  /-- `HeaderValue::try_from` succeeds. -/
  headerValue : List Char → Bool
  /-- A text as `{:?}` shows it. -/
  quoted : List Char → String
  /-- The local time of a stamp. -/
  localTime : Int → Option WebhookBodies.LocalTime
  /-- A JSON number is one the parser can hold. -/
  inRange : List Char → Bool

/-! ## Notifications -/

/-- Some of these ASCII letters, digits and extra characters, and nothing else. -/
def only (text extra : List Char) : Bool :=
  text ≠ [] ∧ text.all (fun c => c.isAlphanum || extra.contains c)

/-- ASCII digits and nothing else. -/
def digits (text : List Char) : Bool := text ≠ [] ∧ text.all Char.isDigit

/-- `parse_headers`, one line. -/
def parseHeader (checks : Checks) (line : List Char) : Except String (List Char × List Char) :=
  match splitOnce ':' line with
  | none => .error "every webhook header line must read Name: value"
  | some (name, value) =>
    match checks.headerName (trim name) with
    | none => .error ("invalid header name " ++ checks.quoted (trim name))
    | some name =>
      if checks.headerValue (trim value) then .ok (name, trim value)
      else .error ("invalid value for header " ++ String.ofList name)

/-- `parse_headers`. -/
def parseHeaders (checks : Checks) (text : String) : Except String (List (List Char × List Char)) :=
  (((lines text.toList).map trim).filter fun line => line ≠ []).mapM (parseHeader checks)

/-- The bot tokens BotFather issues. -/
def botToken (value : List Char) : Bool :=
  match splitOnce ':' value with
  | some (id, secret) => digits id && only secret ['_', '-']
  | none => false

/-- A numeric chat id or an `@username`. -/
def chatName (value : List Char) : Bool :=
  match value with
  | '@' :: name => only name ['_']
  | '-' :: id => digits id
  | id => digits id

/-- The fields an empty value clears. -/
def clearable : List String :=
  ["notify_telegram_token", "notify_telegram_chat", "notify_webhook_url", "notify_telegram_text",
    "notify_webhook_body"]

/-- `setting_error` of the notifications. -/
def notifySettingError (checks : Checks) (key value : String) : Option String :=
  match numbers.find? fun n => n.key == key with
  | some n =>
    if ((parseI64 value).filter fun v => n.min ≤ v ∧ v ≤ n.max).isSome then none
    else some (key ++ " must be a number from " ++ toString n.min ++ " to " ++ toString n.max)
  | none =>
    if key = "notify_login" then
      if value = "on" ∨ value = "off" then none else some "notify_login must be on or off"
    else if key = "notify_webhook_headers" then
      match parseHeaders checks value with
      | .error message => some message
      | .ok _ => none
    else if key ∈ clearable ∧ value = "" then none
    else if key = "notify_telegram_text" then none
    else if key = "notify_telegram_token" then
      if botToken value.toList then none
      else some "Telegram bot token must look like 123456:ABC-DEF"
    else if key = "notify_telegram_chat" then
      if chatName value.toList then none
      else some "Telegram chat must be a numeric id or an @username"
    else if key = "notify_webhook_url" then
      if (checks.parseUrl value).any fun u => u.scheme = "http" ∨ u.scheme = "https" then none
      else some "webhook URL must start with http:// or https://"
    else if key = "notify_webhook_body" then
      WebhookBodies.bodyError checks.localTime checks.inRange value.toList
    else some ("unknown setting: " ++ key)

/-! ## The panel -/

/-- `READABLE_SETTINGS`. -/
def readableSettings : List String :=
  ["site_name", "public_page", "public_default_view", "admin_username", "maintenance_days",
    "online_grace_minutes", "geolite_url", "retention_days"]

/-- `valid_url`. -/
def validUrl (checks : Checks) (value : String) : Bool :=
  (checks.parseUrl value).any fun u => u.scheme = "https" ∧ u.host.isSome ∧ u.username = "" ∧
    u.password = none ∧ u.fragment = none

/-- An account name of 1 to 64 letters, digits, dots, underscores and hyphens. -/
def accountName (value : String) : Bool :=
  value ≠ "" ∧ value.utf8ByteSize ≤ 64 ∧
    value.toList.all (fun c => c.isAlphanum || "_.-".toList.contains c)

/-- `setting_error`. -/
def settingError (checks : Checks) (key : String) (value : Json) : Option String :=
  match value.asStr with
  | none => some (key ++ " must be a string")
  | some value =>
    if key = "public_default_view" ∧ ¬ (value = "cards" ∨ value = "list") then
      some "public default view must be cards or list"
    else if key = "public_page" ∧ ¬ (value = "on" ∨ value = "off") then
      some (key ++ " must be on or off")
    else if key = "retention_days" ∧
        ((parseI64 value).filter fun d => 1 ≤ d ∧ d ≤ 3650).isNone then
      some "retention days must be a number from 1 to 3650"
    else if key = "admin_username" ∧ accountName value = false then
      some "account must contain 1-64 letters, digits, dots, underscores or hyphens"
    else if key = "maintenance_days" ∧ value ∉ ["0", "7", "30", "90", "180"] then
      some "invalid maintenance period"
    else if key = "online_grace_minutes" ∧
        ((parseNat value.toList).filter fun n => 1 ≤ n ∧ n ≤ 60).isNone then
      some "online grace must be 1-60 minutes"
    else if key = "geolite_url" ∧ value ≠ "" ∧ validUrl checks value = false then
      some "GeoLite URL must be an HTTPS URL without credentials"
    else if key = "admin_password" then
      if value.utf8ByteSize < 12 then some "password must be at least 12 characters" else none
    else if key = currentPassword then
      if value = "" then some "current password is required" else none
    else if key.startsWith "notify_" then notifySettingError checks key value
    else if key ∈ readableSettings then none
    else some ("unknown setting: " ++ key)

/-- The settings the hub keeps for itself are not to be patched. -/
theorem settingError_own (checks : Checks) {key : String} (value : Json)
    (h : key = "maintenance_last" ∨ key = "admin_password_hash") :
    settingError checks key value ≠ none := by
  unfold settingError
  cases value.asStr with
  | none => simp
  | some text => rcases h with rfl | rfl <;> simp [currentPassword, readableSettings]

end Romi.SettingChecks
