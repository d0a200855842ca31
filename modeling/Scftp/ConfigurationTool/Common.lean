import Scftp.Lib.Json

set_option autoImplicit false

/- common.c: the configuration, its file and the code between them. -/
namespace Scftp.ConfigurationTool

open CString

/-- `struct scftp_data`. -/
@[ext] structure ScftpData where
  name : CharArray 64
  root : CharArray 128
  port : Int32
  authentication : Int32
  encryptionLevel : Int32
  bufferSize : Int32
  maxConnections : Int32
deriving DecidableEq

def defaultServerName : CharArray 64 := ⟨toStr (ascii "Untitled"), by decide⟩
def defaultPort : Int32 := 9999
def defaultEncryptionLevel : Int32 := 0
def defaultMaxConnections : Int32 := 5
def defaultBufferSize : Int32 := 10
def defaultAuthentication : Int32 := 1

/-- A member of a JSON object that `cJSON_AddStringToObject` adds. -/
def stringMember (key : String) (value : Str) : Str × Json := (toStr (ascii key), .string value)

/-- A member of a JSON object that `cJSON_AddNumberToObject` adds. -/
def numberMember (key : String) (value : Int32) : Str × Json :=
    (toStr (ascii key), .number value.toInt)

/-- The object that `CreateDefaultConfigFile` prints. -/
def defaultConfig (defaultRootDirectory : CharArray 128) : Json :=
  .object [
    stringMember "name" defaultServerName.toStr,
    stringMember "root" defaultRootDirectory.toStr,
    numberMember "port" defaultPort,
    numberMember "encryption" defaultEncryptionLevel,
    numberMember "max connections" defaultMaxConnections,
    numberMember "authentication" defaultAuthentication,
    numberMember "buffer size" defaultBufferSize]

/-- What `CreateDefaultConfigFile` puts into a file it can open. -/
def createDefaultConfigFile (defaultRootDirectory : CharArray 128) : Bytes :=
  cstr (defaultConfig defaultRootDirectory).write

/-- What `JsonToFile` puts into a file it can open. -/
def jsonToFile (jsonObject : Json) : Bytes := cstr jsonObject.write

/-- `ReadToJson` on a file's content, or on no file. Its buffer is not terminated,
so the parser also sees what the heap holds behind the content. -/
def readToJson (file : Option Bytes) (residue : Bytes) : Option Json := do
  let content ← file
  Json.parse (cstr (content ++ residue))

/-- The undefined behaviour `JsonToScftpStruct` can run into. -/
inductive Fault where
  /-- `cJSON_GetObjectItem` returned NULL. -/
  | nullItem
  /-- The item has no string. -/
  | nullString
  /-- The string does not fit its array. -/
  | overflow
deriving DecidableEq

def getItem (jData : Option Json) (key : String) : Except Fault Json :=
  match jData.bind (·.getObjectItem (ascii key)) with
  | none => .error .nullItem
  | some item => .ok item

/-- `strcpy` of an item's string into an array of the struct. -/
def copyString (size : Nat) (item : Json) : Except Fault (CharArray size) :=
  match item.valuestring with
  | none => .error .nullString
  | some text =>
      match strcpy text.bytes with
      | none => .error .overflow
      | some array => .ok array

def jsonToScftpStruct (jData : Option Json) : Except Fault ScftpData := do
  let name ← copyString 64 (← getItem jData "name")
  let root ← copyString 128 (← getItem jData "root")
  let port ← getItem jData "port"
  let encryptionLevel ← getItem jData "encryption"
  let maxConnections ← getItem jData "max connections"
  let authentication ← getItem jData "authentication"
  let bufferSize ← getItem jData "buffer size"
  return {
    name, root
    port := port.valueint
    encryptionLevel := encryptionLevel.valueint
    maxConnections := maxConnections.valueint
    authentication := authentication.valueint
    bufferSize := bufferSize.valueint }

def createJsonHandle (sName sRoot : Str)
    (sPort sEncryption sMaxConnections sBufferSize sAuthentication : Int32) : Json :=
  .object [
    stringMember "name" sName,
    stringMember "root" sRoot,
    numberMember "port" sPort,
    numberMember "encryption" sEncryption,
    numberMember "max connections" sMaxConnections,
    numberMember "authentication" sAuthentication,
    numberMember "buffer size" sBufferSize]

/-- `CreateJsonHandle` with its arguments in the order of `update`. -/
def ScftpData.handle (pData : ScftpData) : Json :=
  createJsonHandle pData.name.toStr pData.root.toStr pData.port pData.encryptionLevel
    pData.maxConnections pData.bufferSize pData.authentication

/-- What `update` leaves in the file. -/
def ScftpData.saved (pData : ScftpData) : Bytes := jsonToFile pData.handle

/-- Reading a file into the struct, as `print` and `update` do. -/
def load (file : Option Bytes) (residue : Bytes) : Except Fault ScftpData :=
  jsonToScftpStruct (readToJson file residue)

/-- A file loads to a configuration, whatever the heap holds behind its content. -/
def Loads (file : Option Bytes) (pData : ScftpData) : Prop :=
  ∀ residue, load file residue = .ok pData

/-- The configuration of the default file. -/
def ScftpData.default (defaultRootDirectory : CharArray 128) : ScftpData where
  name := defaultServerName
  root := defaultRootDirectory
  port := defaultPort
  authentication := defaultAuthentication
  encryptionLevel := defaultEncryptionLevel
  bufferSize := defaultBufferSize
  maxConnections := defaultMaxConnections

/-- Both writers put a configuration's fields under the same keys. -/
theorem defaultConfig_eq_handle (root : CharArray 128) :
    defaultConfig root = (ScftpData.default root).handle := rfl

theorem createDefaultConfigFile_eq_saved (root : CharArray 128) :
    createDefaultConfigFile root = (ScftpData.default root).saved := by
  rw [createDefaultConfigFile, defaultConfig_eq_handle]
  rfl

theorem copyString_string (size : Nat) (array : CharArray size) :
    copyString size (.string array.toStr) = .ok array := by
  simp only [copyString, Json.valuestring, strcpy_of_charArray]

/-- The reader finds every field under the key the writers put it. -/
theorem jsonToScftpStruct_handle (pData : ScftpData) :
    jsonToScftpStruct (some pData.handle) = .ok pData := by
  have name : getItem (some pData.handle) "name" = .ok (.string pData.name.toStr) := rfl
  have root : getItem (some pData.handle) "root" = .ok (.string pData.root.toStr) := rfl
  have port : getItem (some pData.handle) "port" = .ok (.number pData.port.toInt) := rfl
  have encryption : getItem (some pData.handle) "encryption" =
      .ok (.number pData.encryptionLevel.toInt) := rfl
  have maxConnections : getItem (some pData.handle) "max connections" =
      .ok (.number pData.maxConnections.toInt) := rfl
  have authentication : getItem (some pData.handle) "authentication" =
      .ok (.number pData.authentication.toInt) := rfl
  have bufferSize : getItem (some pData.handle) "buffer size" =
      .ok (.number pData.bufferSize.toInt) := rfl
  simp only [jsonToScftpStruct, name, root, port, encryption, maxConnections, authentication,
    bufferSize, bind, Except.bind, copyString_string, Json.valueint_toInt]
  rfl

theorem whole_handle (pData : ScftpData) : pData.handle.Whole := by
  simp only [ScftpData.handle, createJsonHandle, stringMember, numberMember, Json.Whole,
    Json.WholeMembers, true_and, and_true]
  exact ⟨⟨_, rfl⟩, ⟨_, rfl⟩, ⟨_, rfl⟩, ⟨_, rfl⟩, ⟨_, rfl⟩⟩

/-- A saved file parses to its object, whatever stands behind it. -/
theorem readToJson_jsonToFile (json : Json) (residue : Bytes) (whole : json.Whole)
    (ends : ∀ rest, json.Ends rest) :
    readToJson (some (jsonToFile json)) residue = some json := by
  have text := Json.zero_not_mem_write json
  simp only [readToJson, jsonToFile, Option.bind_eq_bind, Option.bind_some]
  rw [cstr_of_noNul json.write text, cstr_append json.write residue text]
  exact Json.parse_write json _ whole (ends _)

theorem loads_saved (pData : ScftpData) : Loads (some pData.saved) pData := by
  intro residue
  rw [load, ScftpData.saved, readToJson_jsonToFile pData.handle residue (whole_handle pData)
    fun _ => trivial]
  exact jsonToScftpStruct_handle pData

/-- Loading undoes saving: what `update` writes loads to what it had in hand, and
the default file to the defaults. -/
theorem load_undoes_save :
    (∀ pData : ScftpData, ∀ residue : Bytes,
        jsonToScftpStruct (readToJson (some (jsonToFile (createJsonHandle pData.name.toStr
          pData.root.toStr pData.port pData.encryptionLevel pData.maxConnections pData.bufferSize
          pData.authentication))) residue) = .ok pData) ∧
      ∀ root : CharArray 128, ∀ residue : Bytes,
        jsonToScftpStruct (readToJson (some (createDefaultConfigFile root)) residue) = .ok {
          name := defaultServerName
          root := root
          port := 9999
          authentication := 1
          encryptionLevel := 0
          bufferSize := 10
          maxConnections := 5 } := by
  refine ⟨fun pData residue => loads_saved pData residue, fun root residue => ?_⟩
  rw [createDefaultConfigFile_eq_saved]
  exact loads_saved (ScftpData.default root) residue

end Scftp.ConfigurationTool
