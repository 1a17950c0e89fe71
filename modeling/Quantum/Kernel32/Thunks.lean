import Mathlib.Data.BitVec

/-!
# Built-in DLLs

The import resolver: for a DLL name and a function name, the address of the host function behind it.
DLL names are compared without ASCII case, function names as they are.

The host functions are known here by the DLL and the name they are exported under; where the linker has
put them is a parameter (`Host`).
-/

namespace Quantum.Kernel32

/-- The tables of exports.  Several DLL names may share one. -/
inductive Dll where
  | kernel32 | steamApi64 | d3d11 | d3d9 | d3dx11 | d3dcompiler | dxgi | user32 | gdi32 | ntdll
  | msvcrt | advapi32 | winmm | shell32 | ole32 | imm32 | crypt32 | dinput8 | oleaut32 | xinput13
  | wldap32 | ws232 | wsock32 | msacm32
  deriving DecidableEq

/-- The names that a table lists. -/
def Dll.names : Dll → List String
  | .kernel32 =>
    ["ExitProcess", "GetStdHandle", "WriteFile", "GetProcessHeap", "HeapAlloc", "HeapFree",
     "HeapCreate", "HeapDestroy", "HeapReAlloc", "HeapSize", "HeapValidate", "HeapSetInformation",
     "LCMapStringA", "GetStringTypeA", "GetStringTypeExA", "GetStringTypeExW", "FindFirstFileExA",
     "FindNextFileA", "GetFullPathNameA", "GetTempPathA", "GetDriveTypeA", "GetWindowsDirectoryA",
     "DeviceIoControl", "OpenEventA", "OpenEventW", "FlsAlloc", "FlsFree", "FlsGetValue",
     "FlsSetValue", "SetHandleCount", "CreateWaitableTimerA", "CreateWaitableTimerW",
     "SetWaitableTimer", "GetVersionExA", "OpenFile", "Sleep", "GetTickCount", "GetTickCount64",
     "QueryPerformanceCounter", "QueryPerformanceFrequency", "GetSystemTimeAsFileTime",
     "GetCurrentThreadId", "GetCurrentProcessId", "VirtualAlloc", "VirtualFree", "VirtualProtect",
     "InitializeCriticalSection", "InitializeCriticalSectionAndSpinCount", "EnterCriticalSection",
     "LeaveCriticalSection", "DeleteCriticalSection", "TryEnterCriticalSection", "SetLastError",
     "GetLastError", "LoadLibraryA", "LoadLibraryW", "LoadLibraryExA", "LoadLibraryExW",
     "FreeLibrary", "GetModuleHandleA", "GetModuleHandleW", "GetProcAddress", "CreateEventA",
     "CreateEventW", "SetEvent", "ResetEvent", "PulseEvent", "CreateMutexA", "CreateMutexW",
     "ReleaseMutex", "CreateSemaphoreA", "CreateSemaphoreW", "ReleaseSemaphore",
     "WaitForSingleObject", "WaitForSingleObjectEx", "WaitForMultipleObjects", "CloseHandle",
     "DuplicateHandle", "CreateThread", "GetCurrentThread", "GetCurrentProcess", "ExitThread",
     "RtlLookupFunctionEntry", "RtlCaptureContext", "RtlPcToFileHeader", "RtlUnwindEx",
     "RtlVirtualUnwind", "RtlAddFunctionTable", "UnhandledExceptionFilter",
     "SetUnhandledExceptionFilter", "AddVectoredExceptionHandler", "RemoveVectoredExceptionHandler",
     "AddVectoredContinueHandler", "RemoveVectoredContinueHandler", "GetCommandLineA",
     "GetCommandLineW", "GetStartupInfoA", "GetStartupInfoW", "GetEnvironmentStrings",
     "GetEnvironmentStringsW", "FreeEnvironmentStringsA", "FreeEnvironmentStringsW",
     "GetEnvironmentVariableA", "GetEnvironmentVariableW", "SetEnvironmentVariableA",
     "SetEnvironmentVariableW", "GetACP", "GetOEMCP", "GetUserDefaultLCID", "GetSystemDefaultLCID",
     "GetCPInfo", "GetLocaleInfoA", "GetLocaleInfoW", "LCMapStringW", "CompareStringW",
     "GetStringTypeW", "GetTimeZoneInformation", "GetTimeFormatW", "IsDebuggerPresent",
     "IsProcessorFeaturePresent", "GetSystemDirectoryA", "GetSystemDirectoryW", "GetVersionExW",
     "GetVersion", "TerminateProcess", "FreeLibraryAndExitThread", "EncodePointer", "DecodePointer",
     "InitializeSListHead", "InterlockedPopEntrySList", "InterlockedPushEntrySList",
     "QueryDepthSList", "InterlockedFlushSList", "SwitchToThread", "GetThreadPriority",
     "SetThreadPriority", "GetThreadTimes", "GetLogicalProcessorInformation",
     "GetNumaHighestNodeNumber", "RegisterWaitForSingleObject", "UnregisterWait",
     "UnregisterWaitEx", "SignalObjectAndWait", "CreateTimerQueue", "CreateTimerQueueTimer",
     "ChangeTimerQueueTimer", "DeleteTimerQueueTimer", "CreateFileA", "CreateFileW", "ReadFile",
     "FlushFileBuffers", "SetFilePointer", "SetFilePointerEx", "GetFileSizeEx", "SetEndOfFile",
     "GetFileSize", "GetFileType", "GetFileAttributesA", "GetFileAttributesW",
     "GetFileAttributesExW", "SetFileAttributesW", "GetFileInformationByHandle", "FindFirstFileW",
     "FindFirstFileExW", "FindNextFileW", "FindClose", "CreateDirectoryW", "RemoveDirectoryW",
     "DeleteFileW", "MoveFileW", "MoveFileExW", "CopyFileW", "GetCurrentDirectoryW",
     "GetFullPathNameW", "GetTempPathW", "GetTempFileNameW", "GetDriveTypeW", "GetDiskFreeSpaceW",
     "GetDiskFreeSpaceExW", "ReadDirectoryChangesW", "ReadConsoleA", "ReadConsoleW",
     "WriteConsoleW", "GetConsoleMode", "SetConsoleMode", "GetConsoleCP", "SetConsoleCtrlHandler",
     "OutputDebugStringA", "OutputDebugStringW", "CreatePipe", "PeekNamedPipe",
     "GetOverlappedResult", "CancelIo", "SetHandleInformation", "SetStdHandle", "SetErrorMode",
     "TlsAlloc", "TlsFree", "TlsGetValue", "TlsSetValue", "LocalAlloc", "LocalFree", "GlobalAlloc",
     "GlobalFree", "GlobalLock", "GlobalUnlock", "GlobalMemoryStatus", "HeapQueryInformation",
     "MultiByteToWideChar", "WideCharToMultiByte", "IsValidCodePage", "IsValidLocale",
     "FormatMessageA", "FormatMessageW", "ExpandEnvironmentStringsA", "EnumSystemLocalesW",
     "GetSystemDefaultLangID", "GetUserDefaultLangID", "GetSystemDefaultLocaleName",
     "GetDateFormatW", "CreateProcessA", "GetExitCodeProcess", "GetExitCodeThread", "OpenThread",
     "ResumeThread", "SuspendThread", "TerminateThread", "SetThreadAffinityMask",
     "SetThreadIdealProcessor", "SetProcessAffinityMask", "GetProcessAffinityMask", "SleepEx",
     "QueueUserAPC", "RaiseException", "ConvertFiberToThread", "DeleteFiber", "GetModuleFileNameA",
     "GetModuleFileNameW", "GetModuleHandleExW", "GetSystemInfo", "GetNativeSystemInfo",
     "GetLocalTime", "FileTimeToLocalFileTime", "LocalFileTimeToFileTime", "FileTimeToSystemTime",
     "SystemTimeToFileTime", "SystemTimeToTzSpecificLocalTime", "VerSetConditionMask",
     "VerifyVersionInfoW", "VirtualQuery"]
  | .steamApi64 =>
    ["SteamAPI_Init", "SteamAPI_Shutdown", "SteamAPI_RestartAppIfNecessary",
     "SteamAPI_RunCallbacks", "SteamAPI_RegisterCallback", "SteamAPI_UnregisterCallback",
     "SteamAPI_RegisterCallResult", "SteamAPI_UnregisterCallResult", "SteamUser", "SteamUtils",
     "SteamApps", "SteamClient", "SteamFriends", "SteamMatchmaking", "SteamNetworking",
     "SteamUserStats"]
  | .d3d11 =>
    ["D3D11CreateDevice"]
  | .d3d9 =>
    ["D3DPERF_GetStatus"]
  | .d3dx11 =>
    ["D3DX11SaveTextureToFileW"]
  | .d3dcompiler =>
    ["D3DGetBlobPart"]
  | .dxgi =>
    ["CreateDXGIFactory", "CreateDXGIFactory1", "CreateDXGIFactory2"]
  | .user32 =>
    ["LoadCursorW", "SetCursor", "LoadIconW", "GetDC", "GetWindowRect", "GetClientRect",
     "AdjustWindowRect", "SetWindowTextW", "SetForegroundWindow", "SetActiveWindow", "SetFocus",
     "UpdateWindow", "ShowWindow", "IsZoomed", "SetTimer", "KillTimer", "RegisterClassExW",
     "CreateWindowExW", "DestroyWindow", "DefWindowProcW", "PostMessageW", "SendMessageW",
     "GetMessageExtraInfo", "SetWindowLongW", "GetWindowLongW", "GetSystemMetrics", "FindWindowW",
     "GetActiveWindow", "GetForegroundWindow", "GetDesktopWindow", "GetKeyboardState",
     "GetKeyState", "GetKeyboardLayout", "GetAsyncKeyState", "SendInput", "GetCursorPos",
     "SetCursorPos", "ScreenToClient", "ClientToScreen", "ClipCursor", "ShowCursor", "SetWindowPos",
     "PeekMessageW", "GetMessageW", "TranslateMessage", "DispatchMessageW", "PostQuitMessage",
     "OpenClipboard", "CloseClipboard", "EmptyClipboard", "SetClipboardData", "GetClipboardData",
     "MessageBoxW", "GetProcessWindowStation", "GetUserObjectInformationW", "GetWindowLongPtrA",
     "GetWindowLongPtrW", "GetWindowLongA", "SetWindowLongPtrA", "SetWindowLongPtrW",
     "GetTopWindow", "GetWindow", "GetWindowThreadProcessId", "EnumDisplayDevicesA",
     "EnumDisplayDevicesW", "SystemParametersInfoA", "SystemParametersInfoW", "MonitorFromWindow",
     "MonitorFromPoint", "GetMonitorInfoA", "GetMonitorInfoW", "EnumDisplayMonitors",
     "CharLowerBuffA", "CharLowerBuffW", "CharUpperBuffA", "CharUpperBuffW"]
  | .gdi32 =>
    ["CreateFontW", "SelectObject", "DeleteObject", "CreateBitmap", "GetTextMetricsW",
     "GetGlyphOutlineW", "GetKerningPairsW", "EnumFontFamiliesExW", "DeleteDC", "CreateDCW",
     "CreateDCA", "ExtEscape"]
  | .ntdll =>
    ["RtlAllocateHeap", "RtlReAllocateHeap", "RtlFreeHeap", "RtlSizeHeap",
     "RtlInitializeCriticalSection", "RtlInitializeCriticalSectionAndSpinCount",
     "RtlEnterCriticalSection", "RtlLeaveCriticalSection", "RtlDeleteCriticalSection",
     "RtlGetVersion", "RtlZeroMemory", "RtlCopyMemory", "RtlMoveMemory", "RtlFillMemory", "NtClose",
     "NtQuerySystemInformation", "NtQueryInformationProcess"]
  | .msvcrt =>
    ["memcpy", "memmove", "memset", "memcmp", "malloc", "calloc", "realloc", "free", "strlen",
     "strcmp", "strncmp", "strcpy", "strncpy", "strcat", "strchr", "strstr", "abort", "exit",
     "_exit", "atexit", "__getmainargs", "_set_app_type", "_initterm", "_initterm_e",
     "_configure_narrow_argv", "_configure_wide_argv", "_initialize_narrow_environment",
     "_initialize_wide_environment", "fopen", "fclose", "fread", "fwrite", "fseek", "ftell",
     "fflush", "feof", "ferror", "fgets", "fputs", "fputc", "putc", "fgetc", "getc", "rewind",
     "remove", "rename", "sinf", "cosf", "tanf", "sqrtf", "powf", "logf", "expf", "floorf", "ceilf",
     "fabsf", "sin", "cos", "tan", "sqrt", "pow", "log", "exp", "floor", "ceil", "fabs"]
  | .advapi32 =>
    ["CryptAcquireContextA", "CryptAcquireContextW", "CryptReleaseContext", "CryptCreateHash",
     "CryptHashData", "CryptGetHashParam", "CryptDestroyHash", "CryptSignHashW", "CryptDecrypt",
     "CryptExportKey", "CryptGetUserKey", "CryptGetProvParam", "CryptSetHashParam",
     "CryptDestroyKey", "CryptEnumProvidersW", "CryptGenRandom", "SystemFunction036",
     "RegisterEventSourceW", "DeregisterEventSource", "ReportEventW",
     "InitializeSecurityDescriptor", "SetSecurityDescriptorDacl", "GetUserNameA", "GetUserNameW",
     "RegOpenKeyA", "RegOpenKeyW", "RegOpenKeyExA", "RegOpenKeyExW", "RegCloseKey", "RegEnumKeyA",
     "RegEnumKeyW", "RegEnumKeyExA", "RegEnumKeyExW", "RegQueryValueExA", "RegQueryValueExW",
     "RegSetValueExA", "RegSetValueExW", "RegCreateKeyExA", "RegCreateKeyExW", "RegDeleteKeyA",
     "RegDeleteValueA"]
  | .winmm =>
    ["timeBeginPeriod", "timeEndPeriod", "timeGetTime", "waveOutGetNumDevs", "waveOutGetDevCapsA",
     "waveOutGetDevCapsW", "waveOutOpen", "waveOutClose", "waveOutPrepareHeader",
     "waveOutUnprepareHeader", "waveOutWrite", "waveOutReset", "waveOutGetPosition",
     "waveInGetNumDevs", "waveInGetDevCapsA", "waveInGetDevCapsW", "waveInOpen", "waveInClose",
     "waveInPrepareHeader", "waveInUnprepareHeader", "waveInAddBuffer", "waveInStart",
     "waveInReset", "mciSendCommandA", "waveOutPause", "waveOutRestart", "waveOutSetVolume",
     "waveOutGetVolume"]
  | .shell32 =>
    ["SHGetFolderPathW", "CommandLineToArgvW"]
  | .ole32 =>
    ["CoInitialize", "CoInitializeEx", "CoUninitialize", "CoCreateInstance", "CoTaskMemAlloc",
     "CoTaskMemFree", "CoCreateGuid", "CoSetProxyBlanket", "CLSIDFromString", "PropVariantClear"]
  | .imm32 =>
    ["ImmDisableIME"]
  | .crypt32 =>
    ["CertDuplicateCertificateContext", "CertGetCertificateContextProperty",
     "CertFreeCertificateContext", "CryptDecodeObjectEx", "CertOpenStore", "CertCloseStore",
     "CertEnumCertificatesInStore", "CertFindCertificateInStore"]
  | .dinput8 =>
    ["DirectInput8Create"]
  | .oleaut32 =>
    ["#2", "#6"]
  | .xinput13 =>
    ["#2", "#3"]
  | .wldap32 => []
  | .ws232 =>
    ["WSAStartup", "#57", "WSACleanup", "#52", "WSAGetLastError", "#55", "WSASetLastError", "#56",
     "WSASocketW", "WSASocketA", "#115", "WSACreateEvent", "WSACloseEvent", "WSASetEvent",
     "WSAResetEvent", "WSAWaitForMultipleEvents", "WSAEventSelect", "WSAEnumNetworkEvents",
     "WSAStringToAddressW", "#116", "WSARecv", "#111", "WSASend", "#113", "WSARecvFrom", "#112",
     "WSASendTo", "#114", "__WSAFDIsSet", "#151", "#51", "accept", "#1", "bind", "#2",
     "closesocket", "#3", "connect", "#4", "getpeername", "#5", "getsockname", "#6", "getsockopt",
     "#7", "htonl", "#8", "htons", "#9", "inet_addr", "#10", "inet_ntoa", "#11", "ioctlsocket",
     "#12", "listen", "#13", "ntohl", "#14", "ntohs", "#15", "recv", "#16", "recvfrom", "#17",
     "select", "#18", "send", "#19", "sendto", "#20", "setsockopt", "#21", "shutdown", "#22",
     "socket", "#23", "inet_pton", "inet_ntop", "getaddrinfo", "freeaddrinfo", "getnameinfo"]
  | .wsock32 =>
    ["#101", "#102", "#103", "#104", "#105", "#106", "#107", "#108", "#109", "#110",
     "WSAAsyncSelect", "WSAAsyncGetHostByName", "WSAAsyncGetHostByAddr", "WSACancelAsyncRequest",
     "WSASetBlockingHook", "WSAUnhookBlockingHook", "WSACancelBlockingCall", "WSAIsBlocking"]
  | .msacm32 =>
    ["acmStreamOpen", "acmStreamClose", "acmStreamSize", "acmStreamConvert",
     "acmStreamPrepareHeader", "acmStreamUnprepareHeader", "acmFormatSuggest"]

/-- Where the host functions are.  No function is at the null address. -/
structure Host where
  addr : Dll → String → BitVec 64
  addr_ne_zero : ∀ d name, addr d name ≠ 0

/-- Does the resolver of a DLL know a name?  `WLDAP32` takes any ordinal, and `WSOCK32` has what
`WS2_32` has. -/
def Dll.exports (d : Dll) (name : String) : Bool :=
  match d with
  | .wldap32 => name.toList.head? == some '#'
  | .wsock32 => Dll.wsock32.names.contains name || Dll.ws232.names.contains name
  | d => d.names.contains name

/-- The DLL whose function a name is: `WSOCK32` passes on what it does not list itself. -/
def Dll.owner (d : Dll) (name : String) : Dll :=
  match d with
  | .wsock32 => if Dll.wsock32.names.contains name then .wsock32 else .ws232
  | d => d

/-- The resolver of a DLL. -/
def Host.resolve (h : Host) (d : Dll) (name : String) : Option (BitVec 64) :=
  if d.exports name then some (h.addr (d.owner name) name) else none

/-- `eq_ignore_ascii_case`. -/
def asciiLower (s : String) : List Char := s.toList.map Char.toLower

/-- The names that `resolve` compares a DLL name with, in its order. -/
def thunkTable : List (String × Dll) :=
  [("kernel32.dll", .kernel32), ("kernelbase.dll", .kernel32), ("steam_api64.dll", .steamApi64),
   ("d3d11.dll", .d3d11), ("d3d9.dll", .d3d9), ("d3dx11_43.dll", .d3dx11),
   ("d3dcompiler_43.dll", .d3dcompiler), ("dxgi.dll", .dxgi), ("user32.dll", .user32),
   ("gdi32.dll", .gdi32), ("ntdll.dll", .ntdll), ("msvcrt.dll", .msvcrt), ("ucrtbase.dll", .msvcrt),
   ("vcruntime140.dll", .msvcrt), ("vcruntime140_1.dll", .msvcrt), ("msvcr100.dll", .msvcrt),
   ("msvcr110.dll", .msvcrt), ("msvcr120.dll", .msvcrt), ("msvcp100.dll", .msvcrt),
   ("msvcp140.dll", .msvcrt), ("api-ms-win-crt-runtime-l1-1-0.dll", .msvcrt),
   ("api-ms-win-crt-string-l1-1-0.dll", .msvcrt), ("api-ms-win-crt-stdio-l1-1-0.dll", .msvcrt),
   ("api-ms-win-crt-heap-l1-1-0.dll", .msvcrt), ("api-ms-win-crt-utility-l1-1-0.dll", .msvcrt),
   ("advapi32.dll", .advapi32), ("winmm.dll", .winmm), ("shell32.dll", .shell32),
   ("ole32.dll", .ole32), ("imm32.dll", .imm32), ("crypt32.dll", .crypt32),
   ("dinput8.dll", .dinput8), ("oleaut32.dll", .oleaut32), ("xinput1_3.dll", .xinput13),
   ("wldap32.dll", .wldap32), ("ws2_32.dll", .ws232), ("wsock32.dll", .wsock32),
   ("msacm32.dll", .msacm32)]

/-- The DLL that a name in an import table means. -/
def thunkDll (dll : String) : Option Dll :=
  (thunkTable.find? fun e => asciiLower e.1 == asciiLower dll).map Prod.snd

/-- `thunks::resolve`. -/
def Host.resolveThunk (h : Host) (dll function : String) : Option (BitVec 64) :=
  match thunkDll dll with
  | some d => h.resolve d function
  | none => none

end Quantum.Kernel32
