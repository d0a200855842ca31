import Scftp.ConfigurationTool.Main
import Scftp.ConfigurationTool.StartUp
import Scftp.Lib.Program

set_option autoImplicit false

/- main.c, common.c and utils.c call by call: the calls of the C library, the system
and cJSON, with what they take and give back, and everything that is printed. -/
namespace Scftp.ConfigurationTool.Calls

open CString Json Machine Program Program.Prog

/-- A pointer to what a call handed out, by its number, or NULL. -/
abbrev Pointer := Option Nat

inductive Mode where
  | r
  | w
deriving DecidableEq

inductive Api where
  | access (path : Bytes)
  | opendir (path : Bytes)
  | closedir (dir : Pointer)
  | mkdir (path : Bytes)
  | fopen (path : Bytes) (mode : Mode)
  /-- `fseek` to the end and `ftell`. -/
  | ftell (fd : Pointer)
  | malloc (size : Nat)
  /-- `rewind` and `fread`. -/
  | fread (buffer : Pointer) (size : Nat) (fd : Pointer)
  | fputs (string fd : Pointer)
  | fclose (fd : Pointer)
  | free (string : Pointer)
  | cJSONParse (buffer : Pointer)
  | cJSONCreateObject
  | cJSONAddToObject (object : Pointer) (member : Str × Json)
  | cJSONGetObjectItem (object : Pointer) (key : String)
  | cJSONPrintUnformatted (item : Pointer)
  | cJSONDelete (item : Pointer)
  | socket
  | bind (socketFd : Pointer) (port : UInt16)
  | close (socketFd : Pointer)
  | fgets (buffer : Bytes) (size : Nat)
  | scanf
  | system (command : Bytes)
  | printf (text : Bytes)
  | fprintfStderr (text : Bytes)
  | perror (text : Bytes)

/-- What a call hands back: a pointer, whether it succeeded, a size, an item of an
object, the bytes of a line, a number that was read. -/
structure Returned where
  pointer : Pointer
  succeeds : Bool
  size : Nat
  item : Option Json
  line : Bytes
  number : Option Int32

def Returned.nothing : Returned := ⟨none, false, 0, none, [], none⟩

def printf (text : Bytes) : Prog Api Returned Unit := do
  let _ ← perform (.printf text)
  return ()

section Utils

def createFolder (folderPath : Bytes) : Prog Api Returned Unit := do
  printf (ascii "[ --- ]   Creating folder " ++ folderPath ++ ascii "\n")
  let status ← perform (.mkdir folderPath)
  if status.succeeds then printf (ascii "[ OK ]    Folder Created Successfully\n")
  else printf (ascii "[ ERROR ] Failed to create folder\n")

/-- Both returns come before the `fclose`. -/
def checkFileEmpty (fileName : Bytes) : Prog Api Returned UInt8 := do
  let fd ← perform (.fopen fileName .r)
  if fd.pointer.isSome then
    let told ← perform (.ftell fd.pointer)
    if told.size = 0 then return empty
    else return notEmpty
  else
    printf (ascii "[ ERROR ] File doesn't exists " ++ fileName ++ ascii "\n")
    return -1

def checkFileExist (fileName : Bytes) : Prog Api Returned UInt8 := do
  let found ← perform (.access fileName)
  if found.succeeds then
    printf (ascii "[ OK ]    File exists " ++ fileName ++ ascii "\n")
    return exist
  else
    printf (ascii "[ ERROR ] File doesn't exist " ++ fileName ++ ascii "\n")
    return notExist

def checkFolderExist (folderName : Bytes) : Prog Api Returned UInt8 := do
  let dir ← perform (.opendir folderName)
  if dir.pointer.isSome then
    printf (ascii "[ OK ]    Directory exists " ++ folderName ++ ascii "\n")
    let _ ← perform (.closedir dir.pointer)
    return exist
  else
    printf (ascii "[ ERROR ] Folder doesn't exist " ++ folderName ++ ascii "\n")
    return notExist

end Utils

section Common

/-- `cJSON_CreateObject` and the calls that add its members. -/
def createObject (members : List (Str × Json)) : Prog Api Returned Pointer := do
  let object ← perform .cJSONCreateObject
  let _ ← Prog.sequence (members.map (.cJSONAddToObject object.pointer ·))
  return object.pointer

/-- The members `CreateDefaultConfigFile` adds. -/
def defaultMembers (locations : Locations) : List (Str × Json) := [
  stringMember "name" defaultServerName.toStr,
  stringMember "root" locations.rootDirectory.toStr,
  numberMember "port" defaultPort,
  numberMember "encryption" defaultEncryptionLevel,
  numberMember "max connections" defaultMaxConnections,
  numberMember "authentication" defaultAuthentication,
  numberMember "buffer size" defaultBufferSize]

/-- An `fopen` that fails returns past the two that give back. -/
def createDefaultConfigFile (locations : Locations) : Prog Api Returned Unit := do
  let tempConfig ← createObject (defaultMembers locations)
  let tempJsonString ← perform (.cJSONPrintUnformatted tempConfig)
  let fd ← perform (.fopen locations.configFileLocation.bytes .w)
  if fd.pointer.isNone then
    printf (ascii " [ ERROR ] Failed to open config file\n")
  else
    let _ ← perform (.fputs tempJsonString.pointer fd.pointer)
    let _ ← perform (.fclose fd.pointer)
    let _ ← perform (.cJSONDelete tempConfig)
    let _ ← perform (.free tempJsonString.pointer)
    return ()

def jsonToFile (jsonObject : Pointer) (configFilePath : Bytes) : Prog Api Returned Unit := do
  let jsonString ← perform (.cJSONPrintUnformatted jsonObject)
  let fd ← perform (.fopen configFilePath .w)
  if fd.pointer.isNone then
    printf (ascii " [ ERROR ] Failed to open scft config filen\n")
  else
    let _ ← perform (.fputs jsonString.pointer fd.pointer)
    let _ ← perform (.fclose fd.pointer)
    let _ ← perform (.free jsonString.pointer)
    return ()

/-- The buffer is never given back. -/
def readToJson (configFilePath : Bytes) : Prog Api Returned Pointer := do
  let fd ← perform (.fopen configFilePath .r)
  if fd.pointer.isNone then
    let _ ← perform (.fprintfStderr (ascii " [ ERROR ] Failed to open config file\n"))
    return none
  else
    let fileSize ← perform (.ftell fd.pointer)
    let fileBuffer ← perform (.malloc (fileSize.size + 1))
    let _ ← perform (.fread fileBuffer.pointer fileSize.size fd.pointer)
    let _ ← perform (.fclose fd.pointer)
    let jFile ← perform (.cJSONParse fileBuffer.pointer)
    if jFile.pointer.isNone then
      let _ ← perform (.fprintfStderr (ascii " [ ERROR ] Failed to parse config data to json\n"))
      return none
    else return jFile.pointer

/-- An item's fields are read through the pointer that was returned. -/
def getItem (jData : Pointer) (key : String) : ExceptT Fault (Prog Api Returned) Json := do
  let found ← ExceptT.lift (perform (.cJSONGetObjectItem jData key))
  match found.item with
  | none => throw .nullItem
  | some item => return item

def jsonToScftpStruct (jData : Pointer) : ExceptT Fault (Prog Api Returned) ScftpData := do
  let name ← ExceptT.mk (pure (copyString 64 (← getItem jData "name")))
  let root ← ExceptT.mk (pure (copyString 128 (← getItem jData "root")))
  let port ← getItem jData "port"
  let encryptionLevel ← getItem jData "encryption"
  let maxConnections ← getItem jData "max connections"
  let authentication ← getItem jData "authentication"
  let bufferSize ← getItem jData "buffer size"
  return {
    name, root
    port := port.valueint
    encryptionLevel := encryptionLevel.valueint
    maxConnections := maxConnections.valueint
    authentication := authentication.valueint
    bufferSize := bufferSize.valueint }

def createJsonHandle (sName sRoot : Str)
    (sPort sEncryption sMaxConnections sBufferSize sAuthentication : Int32) :
    Prog Api Returned Pointer :=
  createObject [
    stringMember "name" sName,
    stringMember "root" sRoot,
    numberMember "port" sPort,
    numberMember "encryption" sEncryption,
    numberMember "max connections" sMaxConnections,
    numberMember "authentication" sAuthentication,
    numberMember "buffer size" sBufferSize]

/-- The text of `PrintScftpStruct`. -/
def shown (sData : ScftpData) : Bytes :=
  ascii "name : " ++ sData.name.bytes ++ ascii "\nroot : " ++ sData.root.bytes ++
    ascii "\nport : " ++ writeInt sData.port.toInt ++
    ascii "\nencryption : " ++ writeInt sData.encryptionLevel.toInt ++
    ascii "\nmax connections : " ++ writeInt sData.maxConnections.toInt ++
    ascii "\nauthentication : " ++ writeInt sData.authentication.toInt ++
    ascii "\nbuffer size : " ++ writeInt sData.bufferSize.toInt ++ ascii "\n"

def printScftpStruct (sData : ScftpData) : Prog Api Returned Unit := printf (shown sData)

end Common

section Main

/-- What `main` and `update` keep between two reads. -/
structure Locals where
  arrCCommand : Bytes
  update : Option Update
deriving DecidableEq

/-- `print` and `update` read the configuration from its file. -/
def load (configFilePath : Bytes) : Prog Api Returned (Except Fault ScftpData) := do
  let jData ← readToJson configFilePath
  (jsonToScftpStruct jData).run

/-- `none` when it exits. -/
def isPortAvailable (port : Int32) : Prog Api Returned (Option Bool) := do
  let socketFd ← perform .socket
  if socketFd.pointer.isNone then
    let _ ← perform (.perror (ascii "socket failed"))
    return none
  else
    let bound ← perform (.bind socketFd.pointer port.toInt16.toUInt16)
    if bound.succeeds then
      let _ ← perform (.close socketFd.pointer)
      return some true
    else
      let _ ← perform (.close socketFd.pointer)
      return some false

def ruler : Bytes := ascii "-------------------------\n"

/-- What a loop of `update` prints before its read. -/
def promptText (pData : ScftpData) : Prompt → Bytes
  | .name => ascii "name : " ++ pData.name.bytes ++ ascii "\nupdate to =>"
  | .root => ascii "root : " ++ pData.root.bytes ++ ascii "\nupdate to =>"
  | .port => ascii "port : " ++ writeInt pData.port.toInt ++ ascii "\nupdate to =>"
  | .authentication =>
      ascii "authentication : " ++ writeInt pData.authentication.toInt ++ ascii "\nupdate to =>"
  | .encryption =>
      ascii "ENCRYPTION : " ++ writeInt pData.encryptionLevel.toInt ++ ascii "\nupdate to =>"
  | .bufferSize =>
      ascii "Enter Buffer sizes in single digits\n1 is 1024\n2 is 2048\n3 is " ++
        ascii "3096...\nmax buffer size of 512 i.e., 512KB\n" ++
        ascii "Buffer size : " ++ writeInt pData.bufferSize.toInt ++ ascii "\nupdate to =>"

variable (locals : Locals) (update : Update)

/-- The same loop once more, or the next. -/
def Locals.at (update : Update) : Outcome Locals := .next { locals with update := some update }

def nameStep : Prog Api Returned (Outcome Locals) := do
  let read ← perform (.fgets [] 64)
  if strlen read.line ≤ 1 then
    printf (ascii "Name Cannot be empty\n")
    return locals.at update
  else
    match strcpy read.line with
    | none => return .fault
    | some name => do
        printf name.bytes
        printf ruler
        return locals.at { update with prompt := .root, pData.name := name }

def rootStep : Prog Api Returned (Outcome Locals) := do
  let read ← perform (.fgets [] 128)
  if strlen read.line ≤ 1 then
    printf (ascii "Root Directory cannot be empty\n")
    return locals.at update
  else
    match cutLast read.line with
    | none => return .fault
    | some path => do
        let found ← checkFolderExist path
        if found = notExist then
          printf (ascii "Please provide valid directory path\n")
          return locals.at update
        else
          match cutLast path with
          | none => return .fault
          | some shorter =>
              match strcpy shorter with
              | none => return .fault
              | some root => do
                  printf root.bytes
                  printf ruler
                  return locals.at { update with prompt := .port, pData.root := root }

def portStep : Prog Api Returned (Outcome Locals) := do
  let read ← perform .scanf
  let iBuffer := read.number.getD update.iBuffer
  if iBuffer = 0 then
    printf (ascii "Port Cannot be 0\n")
    return locals.at { update with iBuffer }
  else
    match ← isPortAvailable iBuffer with
    | none => return .exit locals
    | some false => do
        printf (ascii "Port " ++ writeInt iBuffer.toInt ++ ascii " is not available\n")
        return locals.at { update with iBuffer }
    | some true => do
        printf (writeInt iBuffer.toInt ++ ascii "\n")
        printf ruler
        return locals.at { update with prompt := .authentication, iBuffer, pData.port := iBuffer }

def authenticationStep : Prog Api Returned (Outcome Locals) := do
  let read ← perform .scanf
  let iBuffer := read.number.getD 0
  let authentication := if 1 ≤ iBuffer then 1 else 0
  printf ruler
  return locals.at
    { update with prompt := .encryption, iBuffer, pData.authentication := authentication }

def encryptionStep : Prog Api Returned (Outcome Locals) := do
  let read ← perform .scanf
  let iBuffer := read.number.getD 0
  if iBuffer = 0 ∨ iBuffer = 1 ∨ iBuffer = 2 ∨ iBuffer = 3 then
    printf ruler
    return locals.at
      { update with prompt := .bufferSize, iBuffer, pData.encryptionLevel := iBuffer }
  else return locals.at { update with iBuffer }

/-- The last loop, and the write back. The object is never given back. -/
def bufferSizeStep (configFilePath : Bytes) : Prog Api Returned (Outcome Locals) := do
  let read ← perform .scanf
  let iBuffer := read.number.getD 0
  if iBuffer < 1 then
    printf (ascii "Please enter valid buffer size (1 to 512)\n")
    return locals.at { update with iBuffer }
  else
    let pData := { update.pData with bufferSize := if 512 < iBuffer then 512 else iBuffer }
    let jData ← createJsonHandle pData.name.toStr pData.root.toStr pData.port
      pData.encryptionLevel pData.maxConnections pData.bufferSize pData.authentication
    jsonToFile jData configFilePath
    return .next { locals with update := none }

def updateStep (configFilePath : Bytes) : Prog Api Returned (Outcome Locals) := do
  printf (promptText update.pData update.prompt)
  match update.prompt with
  | .name => nameStep locals update
  | .root => rootStep locals update
  | .port => portStep locals update
  | .authentication => authenticationStep locals update
  | .encryption => encryptionStep locals update
  | .bufferSize => bufferSizeStep locals update configFilePath

def helpText : Bytes :=
  ascii "Usage :\n-> <commands>\ncommands:\n\thelp : shows usage " ++
    ascii "and helper data\n\tclear :  clears screen (clears " ++
    ascii "terminale buffer)\n\tupdate : update config " ++
    ascii "data\n\texit : exits ConfigTool\n"

/-- The commands behind a line that was read. -/
def commands (configFilePath : Bytes) : Prog Api Returned (Outcome Locals) := do
  if strcmp locals.arrCCommand (ascii "print\n") then
    match ← load configFilePath with
    | .error _ => return .fault
    | .ok pData => do
        printScftpStruct pData
        return .next locals
  else if strcmp locals.arrCCommand (ascii "update\n") then
    match ← load configFilePath with
    | .error _ => return .fault
    | .ok pData => do
        printf (ascii "[ --- ]   Getting Config Data from " ++ configFilePath ++ ascii "\n")
        printScftpStruct pData
        printf ruler
        return locals.at ⟨.name, 0, pData⟩
  else if strcmp locals.arrCCommand (ascii "exit\n") then
    let _ ← perform (.system (ascii "clear"))
    return .exit locals
  else if strcmp locals.arrCCommand (ascii "clear\n") then
    let _ ← perform (.system (ascii "clear"))
    return .next locals
  else if strcmp locals.arrCCommand (ascii "help\n") then
    printf helpText
    return .next locals
  else if strcmp locals.arrCCommand [] then return .next locals
  else
    printf (ascii "[ ERR ] Invalid Command\n")
    return .next locals

def commandStep (configFilePath : Bytes) : Prog Api Returned (Outcome Locals) := do
  printf ruler
  printf (ascii "->")
  let read ← perform (.fgets locals.arrCCommand 64)
  commands { locals with arrCCommand := read.line } configFilePath

def mainStep (configFilePath : Bytes) : Prog Api Returned (Outcome Locals) :=
  match locals.update with
  | none => commandStep locals configFilePath
  | some update => updateStep locals update configFilePath

def mainLoop (configFilePath : Bytes) : Nat → Locals → Prog Api Returned (Outcome Locals)
  | 0, locals => .done (.next locals)
  | count + 1, locals => do
      match ← mainLoop configFilePath count locals with
      | .next locals => mainStep locals configFilePath
      | ended => return ended

def prepareFolder (locations : Locations) : Prog Api Returned Unit := do
  let folder := locations.configFolderLocation.bytes
  printf (ascii "[ --- ]   Checking default config location exists\n")
  let found ← checkFolderExist folder
  if found = notExist then createFolder folder
  else return ()

def prepareFile (locations : Locations) : Prog Api Returned Unit := do
  let file := locations.configFileLocation.bytes
  printf (ascii "[ --- ]   Checking default config file exists\n")
  let found ← checkFileExist file
  if found = notExist then
    printf (ascii "[ ERROR ] Config file not found\n[ --- ]   Creating Default config " ++
      ascii "file\n")
    createDefaultConfigFile locations
  else
    printf (ascii "[ --- ]   Checking if config file is empty\n")
    let filled ← checkFileEmpty file
    if filled = empty then
      printf (ascii "[ ERROR ] Config file is empty\n[ --- ]   Writing Default config " ++
        ascii "data to file\n")
      createDefaultConfigFile locations
    else return ()

/-- `main` up to a number of steps of its loop; the fault of `SetLocationDefaults` is
an overflow of its buffers. -/
def main (home arrCCommand : Bytes) (steps : Nat) : Prog Api Returned (Outcome Locals) :=
  match setLocationDefaults home with
  | none => return .fault
  | some locations => do
      prepareFolder locations
      prepareFile locations
      mainLoop locations.configFileLocation.bytes steps ⟨arrCCommand, none⟩

end Main

end Scftp.ConfigurationTool.Calls
