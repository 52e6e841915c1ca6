import CodeFactory.Lib.Literal
import CodeFactory.Lib.Template

/-!
# The match table

The table of `define.c` that says which value of the configuration stands at which place of the parameter tree. The numbers of the
applications and parameters come from generated headers; here they are named.
-/

namespace CodeFactory.Tcm

/-- The applications of the configuration that the table names. -/
inductive ConflibApp where
  | tr069 | lan | sntp | dhcpd | dmz | upnpd | service | accessMode | wan | dnsmasq | sdkd | autocm | ddns | log
  | igmpProxy | portForward | account | firewall | route | ipControl | channelPlan | hnsp | capl | rapl
  deriving DecidableEq, Repr

/-- The parameters that the table names. -/
inductive ConflibPara where
  | tr069Url | tr069Username | tr069Password | tr069Informstatus | tr069Informinterval | lanIp | lanMask | sntpNtpserver1
  | sntpNtpserver2 | sntpNtpserver3 | sntpNtpserver4 | sntpNtpserver5 | sntpTimezoneindex | dhcpdStatus | dhcpdStartip
  | dhcpdEndip | dhcpdDefaultlease | dhcpdMaxlease | dmzIp | upnpdStatus | serviceHttpLan | serviceHttpWan | serviceFtpLan
  | serviceFtpWan | serviceIcmpLan | serviceIcmpWan | serviceSnmpLan | serviceSnmpWan | serviceSshLan | serviceSshWan
  | serviceTelnetLan | serviceTelnetWan | serviceTftpLan | serviceTftpWan | accessmodeMode | workMode | wanMode | netMode
  | wanIp | wanNetmask | wanGateway | wanPdns | wanSdns | wanMtu | wanBridgeip | wanBridgemaskbit | wanVlanid
  | wanVlanskbprio | wanVlanprio | wanDscp | mngStatus | mngMode | mngIp | mngNetmask | mngGateway | mngVlanid
  | mngVlanskbprio | mngVlanprio | mngDscp | dnsmasqDns1 | dnsmasqDns2 | dnsmasqDomain | sdkdDriver | sdkdScanInterval
  | sdkdPkm | sdkdEapMethod | sdkdEapFragment | sdkdAlphaDelim | sdkdPrivateKeyPassword | sdkdIdentity | sdkdPassword
  | sdkdAnonymousId | autocmWmAutoCon | autocmNspFindWt | autocmConPolicy | autocmSelectPolicy | autocmFailDelayTime
  | autocmMaxFailCnt | autocmMaxFailDelayTime | autocmDhcpcdAutoStart | autocmMngDhcpcdAutoStart | autocmIpAllocWt
  | autocmGwPingCheck | autocmPingWt | autocmPingRCnt | ddnsProvider | ddnsHostname | ddnsUsername | ddnsPassword
  | ddnsUpdateperiod | logStatus | logLevel | logMode | logServerIp | logServerPort | igmpStatus | portforwardName
  | portforwardProtocol | portforwardStartIncomingPort | portforwardEndIncomingPort | portforwardStartForwardPort
  | portforwardEndForwardPort | portforwardServerIp | accountCname | accountCpassword | accountCuid | accountCgid
  | firewallSrcip | firewallSrcmask | firewallSrcport | firewallDstip | firewallDstmask | firewallDstport
  | firewallProtocol | routeDstip | routeMask | routeNexthoptype | routeNexthoptypeinterface | routeNexthoptypeip
  | routeMetric | ipcontrolAddress | ipcontrolNetmask | channelplanFreqfirst | channelplanFreqlast | channelplanNextstep
  | channelplanPreambles | channelplanBandwidth | channelplanFft | channelplanDuplexmode | hnspId | appCaplSelPolicy
  | tabCaplId | tabCaplPriority | appRaplSelPolicy | tabRaplId | tabRaplPriority
  deriving DecidableEq, Repr

/-- `conflibAppID`. -/
inductive AppID where
  | flagAddDefaultObject
  | app (a : ConflibApp)
  deriving DecidableEq, Repr

/-- `conflibRowID`. -/
inductive RowID where
  | flagAddDefaultObject | flagNoRow | flagTemplateRow
  deriving DecidableEq, Repr

/-- `conflibParID`. -/
inductive ParID where
  | flagAddDefaultObject | flagStatusStyle | flagInstanceID
  | para (p : ConflibPara)
  deriving DecidableEq, Repr

/-- The types of a value; default objects have none. -/
inductive ValueType where
  | none | int | unsigned | bool | string
  deriving DecidableEq, Repr

/-- `ConflibTR069MatchParameter`, as far as the synchronisation reads it. -/
structure MatchParameter where
  conflibAppID : AppID
  conflibRowID : RowID
  conflibParID : ParID
  tr069Name : String
  type : ValueType
  maxNumInstance : Nat
  min : Int
  max : Int

def maxNumOfPortforwardInstance : Nat := 32

def maxNumOfRuleInstance : Nat := 32

def maxNumOfRouteInstance : Nat := 32

namespace MatchParameter

/-- An object that is there from the start. -/
def defaultObject (name : String) : MatchParameter :=
  ⟨.flagAddDefaultObject, .flagAddDefaultObject, .flagAddDefaultObject, name, .none, 0, 0, 0⟩

/-- A parameter outside of the tables. -/
def single (app : ConflibApp) (para : ConflibPara) (name : String) (type : ValueType) (min max : Int) : MatchParameter :=
  ⟨.app app, .flagNoRow, .para para, name, type, 0, min, max⟩

/-- The object of a table with that many rows at most. -/
def instances (app : ConflibApp) (maxNum : Nat) (name : String) : MatchParameter :=
  ⟨.app app, .flagTemplateRow, .flagInstanceID, name, .unsigned, maxNum, 0, 65535⟩

/-- A column of a table. -/
def column (app : ConflibApp) (maxNum : Nat) (para : ConflibPara) (name : String) (type : ValueType) (min max : Int) : MatchParameter :=
  ⟨.app app, .flagTemplateRow, .para para, name, type, maxNum, min, max⟩

end MatchParameter

def gMatchParameters : List MatchParameter :=
  [.defaultObject "InternetGatewayDevice.LANDevice.1.",
   .defaultObject "InternetGatewayDevice.LANDevice.1.LANHostConfigManagement.IPInterface.1.",
   .defaultObject "InternetGatewayDevice.WANDevice.1.",
   .defaultObject "InternetGatewayDevice.WANDevice.1.WANConnectionDevice.1.",
   .defaultObject "InternetGatewayDevice.WANDevice.1.WANConnectionDevice.1.WANIPConnection.1.",
   .defaultObject "InternetGatewayDevice.X_WIMAXFORUM_OperatorProfile.1.",
   .defaultObject "InternetGatewayDevice.X_WIMAXFORUM_OperatorProfile.1.SubscriptionParameters.EAPProfile.1.",
   .single .tr069 .tr069Url "InternetGatewayDevice.ManagementServer.URL" .string 1 64,
   .single .tr069 .tr069Username "InternetGatewayDevice.ManagementServer.Username" .string 1 32,
   .single .tr069 .tr069Password "InternetGatewayDevice.ManagementServer.Password" .string 1 32,
   .single .tr069 .tr069Informstatus "InternetGatewayDevice.ManagementServer.PeriodicInformEnable" .bool 0 1,
   .single .tr069 .tr069Informinterval "InternetGatewayDevice.ManagementServer.PeriodicInformInterval" .unsigned 0 65535,
   .single .lan .lanIp "InternetGatewayDevice.LANDevice.1.LANHostConfigManagement.IPInterface.1.IPInterfaceIPAddress" .string 1 15,
   .single .lan .lanMask "InternetGatewayDevice.LANDevice.1.LANHostConfigManagement.IPInterface.1.IPInterfaceSubnetMask" .string 1 15,
   .single .sntp .sntpNtpserver1 "InternetGatewayDevice.Time.NTPServer1" .string 1 32,
   .single .sntp .sntpNtpserver2 "InternetGatewayDevice.Time.NTPServer2" .string 1 32,
   .single .sntp .sntpNtpserver3 "InternetGatewayDevice.Time.NTPServer3" .string 1 32,
   .single .sntp .sntpNtpserver4 "InternetGatewayDevice.Time.NTPServer4" .string 1 32,
   .single .sntp .sntpNtpserver5 "InternetGatewayDevice.Time.NTPServer5" .string 1 32,
   .single .sntp .sntpTimezoneindex "InternetGatewayDevice.Time.LocalTimeZoneIndex" .string 1 63,
   ⟨.app .sntp, .flagNoRow, .flagStatusStyle,
    "InternetGatewayDevice.Time.CurrentLocalTime", .string, 0, 0, 256⟩,
   .single .dhcpd .dhcpdStatus "InternetGatewayDevice.LANDevice.1.LANHostConfigManagement.DHCPServerEnable" .bool 0 1,
   .single .dhcpd .dhcpdStartip "InternetGatewayDevice.LANDevice.1.LANHostConfigManagement.MinAddress" .string 1 15,
   .single .dhcpd .dhcpdEndip "InternetGatewayDevice.LANDevice.1.LANHostConfigManagement.MaxAddress" .string 1 15,
   .single .dhcpd .dhcpdDefaultlease "InternetGatewayDevice.LANDevice.1.LANHostConfigManagement.DHCPLeaseTime" .unsigned 1 65535,
   .single .dhcpd .dhcpdMaxlease "InternetGatewayDevice.LANDevice.1.LANHostConfigManagement.PassthroughLease" .unsigned 1 65535,
   .single .dmz .dmzIp "InternetGatewayDevice.X_GCT_SecDmzHostCfg" .string 1 15,
   .single .upnpd .upnpdStatus "InternetGatewayDevice.X_GCT_AppCfg.UpnpCfg.Status" .bool 0 1,
   .single .service .serviceHttpLan "InternetGatewayDevice.X_GCT_AccessServiceCfg.APPStatus.HttpLanEnable" .bool 0 1,
   .single .service .serviceHttpWan "InternetGatewayDevice.X_GCT_AccessServiceCfg.APPStatus.HttpWanEnable" .bool 0 1,
   .single .service .serviceFtpLan "InternetGatewayDevice.X_GCT_AccessServiceCfg.APPStatus.FtpLanEnable" .bool 0 1,
   .single .service .serviceFtpWan "InternetGatewayDevice.X_GCT_AccessServiceCfg.APPStatus.FtpWanEnable" .bool 0 1,
   .single .service .serviceIcmpLan "InternetGatewayDevice.X_GCT_AccessServiceCfg.APPStatus.IcmpLanEnable" .bool 0 1,
   .single .service .serviceIcmpWan "InternetGatewayDevice.X_GCT_AccessServiceCfg.APPStatus.IcmpWanEnable" .bool 0 1,
   .single .service .serviceSnmpLan "InternetGatewayDevice.X_GCT_AccessServiceCfg.APPStatus.SnmpLanEnable" .bool 0 1,
   .single .service .serviceSnmpWan "InternetGatewayDevice.X_GCT_AccessServiceCfg.APPStatus.SnmpWanEnable" .bool 0 1,
   .single .service .serviceSshLan "InternetGatewayDevice.X_GCT_AccessServiceCfg.APPStatus.SshLanEnable" .bool 0 1,
   .single .service .serviceSshWan "InternetGatewayDevice.X_GCT_AccessServiceCfg.APPStatus.SshWanEnable" .bool 0 1,
   .single .service .serviceTelnetLan "InternetGatewayDevice.X_GCT_AccessServiceCfg.APPStatus.TelnetLanEnable" .bool 0 1,
   .single .service .serviceTelnetWan "InternetGatewayDevice.X_GCT_AccessServiceCfg.APPStatus.TelnetWanEnable" .bool 0 1,
   .single .service .serviceTftpLan "InternetGatewayDevice.X_GCT_AccessServiceCfg.APPStatus.TftpLanEnable" .bool 0 1,
   .single .service .serviceTftpWan "InternetGatewayDevice.X_GCT_AccessServiceCfg.APPStatus.TftpWanEnable" .bool 0 1,
   .single .accessMode .accessmodeMode "InternetGatewayDevice.X_GCT_AccessServiceCfg.AccessMode" .bool 0 1,
   .single .wan .workMode "InternetGatewayDevice.WANDevice.1.WANConnectionDevice.1.WANIPConnection.1.ConnectionType" .string 1 32,
   .single .wan .wanMode "InternetGatewayDevice.WANDevice.1.WANConnectionDevice.1.WANIPConnection.1.AddressingType" .string 1 32,
   .single .wan .netMode "InternetGatewayDevice.WANDevice.1.WANConnectionDevice.1.WANIPConnection.1.NetMode" .string 1 32,
   .single .wan .wanIp "InternetGatewayDevice.WANDevice.1.WANConnectionDevice.1.WANIPConnection.1.ExternalIPAddress" .string 1 16,
   .single .wan .wanNetmask "InternetGatewayDevice.WANDevice.1.WANConnectionDevice.1.WANIPConnection.1.SubnetMask" .string 1 16,
   .single .wan .wanGateway "InternetGatewayDevice.WANDevice.1.WANConnectionDevice.1.WANIPConnection.1.DefaultGateway" .string 1 16,
   .single .wan .wanPdns "InternetGatewayDevice.WANDevice.1.WANConnectionDevice.1.WANIPConnection.1.DNSServers" .string 1 16,
   .single .wan .wanSdns "InternetGatewayDevice.WANDevice.1.WANConnectionDevice.1.WANIPConnection.1.X_GCT_SecondDNSServer" .string 1 16,
   .single .wan .wanMtu "InternetGatewayDevice.WANDevice.1.WANConnectionDevice.1.WANIPConnection.1.MaxMTUSize" .unsigned 1 65535,
   .single .wan .wanBridgeip "InternetGatewayDevice.WANDevice.1.WANConnectionDevice.1.WANIPConnection.1.X_GCT_BridgeIP" .string 1 16,
   .single .wan .wanBridgemaskbit
    "InternetGatewayDevice.WANDevice.1.WANConnectionDevice.1.WANIPConnection.1.X_GCT_BridgeMaskBit" .unsigned 1 32,
   .single .wan .wanVlanid "InternetGatewayDevice.WANDevice.1.WANConnectionDevice.1.WANIPConnection.1.X_GCT_VLanID" .unsigned 1 4094,
   .single .wan .wanVlanskbprio
    "InternetGatewayDevice.WANDevice.1.WANConnectionDevice.1.WANIPConnection.1.X_GCT_VLanSKBPriority" .unsigned 0 65535,
   .single .wan .wanVlanprio "InternetGatewayDevice.WANDevice.1.WANConnectionDevice.1.WANIPConnection.1.X_GCT_VLanPriority" .unsigned 0 7,
   .single .wan .wanDscp "InternetGatewayDevice.WANDevice.1.WANConnectionDevice.1.WANIPConnection.1.X_GCT_Dscp" .unsigned 0 63,
   .single .wan .mngStatus
    "InternetGatewayDevice.WANDevice.1.WANConnectionDevice.1.WANIPConnection.1.X_GCT_ManageInterfaceEnable" .bool 0 1,
   .single .wan .mngMode
    "InternetGatewayDevice.WANDevice.1.WANConnectionDevice.1.WANIPConnection.1.X_GCT_ManageInterfaceAddressingType" .string 1 256,
   .single .wan .mngIp
    "InternetGatewayDevice.WANDevice.1.WANConnectionDevice.1.WANIPConnection.1.X_GCT_ManageInterfaceExternalIPAddress" .string 1 256,
   .single .wan .mngNetmask
    "InternetGatewayDevice.WANDevice.1.WANConnectionDevice.1.WANIPConnection.1.X_GCT_ManageInterfaceSubnetMask" .string 1 256,
   .single .wan .mngGateway
    "InternetGatewayDevice.WANDevice.1.WANConnectionDevice.1.WANIPConnection.1.X_GCT_ManageInterfaceDefaultGateway" .string 1 256,
   .single .wan .mngVlanid
    "InternetGatewayDevice.WANDevice.1.WANConnectionDevice.1.WANIPConnection.1.X_GCT_ManageInterfaceVLanID" .unsigned 1 4094,
   .single .wan .mngVlanskbprio
    "InternetGatewayDevice.WANDevice.1.WANConnectionDevice.1.WANIPConnection.1.X_GCT_ManageInterfaceVLanSKBPriority" .unsigned 0 65535,
   .single .wan .mngVlanprio
    "InternetGatewayDevice.WANDevice.1.WANConnectionDevice.1.WANIPConnection.1.X_GCT_ManageInterfaceVLanPriority" .unsigned 0 7,
   .single .wan .mngDscp
    "InternetGatewayDevice.WANDevice.1.WANConnectionDevice.1.WANIPConnection.1.X_GCT_ManageInterfaceDscp" .unsigned 0 63,
   .single .dnsmasq .dnsmasqDns1 "InternetGatewayDevice.LANDevice.1.LANHostConfigManagement.DNSServers" .string 0 16,
   .single .dnsmasq .dnsmasqDns2 "InternetGatewayDevice.LANDevice.1.LANHostConfigManagement.X_GCT_SecondDNSServer" .string 0 16,
   .single .dnsmasq .dnsmasqDomain "InternetGatewayDevice.LANDevice.1.LANHostConfigManagement.DomainName" .string 0 256,
   .single .sdkd .sdkdDriver
    "InternetGatewayDevice.X_WIMAXFORUM_OperatorProfile.1.SubscriptionParameters.EAPProfile.1.Driver" .string 0 256,
   .single .sdkd .sdkdScanInterval
    "InternetGatewayDevice.X_WIMAXFORUM_OperatorProfile.1.SubscriptionParameters.EAPProfile.1.ScanInterval" .unsigned 0 1000,
   .single .sdkd .sdkdPkm "InternetGatewayDevice.X_WIMAXFORUM_OperatorProfile.1.SubscriptionParameters.EAPProfile.1.PKMEnable" .bool 0 1,
   .single .sdkd .sdkdEapMethod
    "InternetGatewayDevice.X_WIMAXFORUM_OperatorProfile.1.SubscriptionParameters.EAPProfile.1.Type" .string 0 256,
   .single .sdkd .sdkdEapFragment
    "InternetGatewayDevice.X_WIMAXFORUM_OperatorProfile.1.SubscriptionParameters.EAPProfile.1.EAPFragment" .unsigned 0 1400,
   .single .sdkd .sdkdAlphaDelim
    "InternetGatewayDevice.X_WIMAXFORUM_OperatorProfile.1.SubscriptionParameters.EAPProfile.1.AlphaDelimEnable" .bool 0 1,
   .single .sdkd .sdkdPrivateKeyPassword
    "InternetGatewayDevice.X_WIMAXFORUM_OperatorProfile.1.SubscriptionParameters.EAPProfile.1.KeyPassword" .string 0 256,
   .single .sdkd .sdkdIdentity
    "InternetGatewayDevice.X_WIMAXFORUM_OperatorProfile.1.SubscriptionParameters.EAPProfile.1.Identity" .string 0 256,
   .single .sdkd .sdkdPassword
    "InternetGatewayDevice.X_WIMAXFORUM_OperatorProfile.1.SubscriptionParameters.EAPProfile.1.SharedSecret" .string 0 256,
   .single .sdkd .sdkdAnonymousId
    "InternetGatewayDevice.X_WIMAXFORUM_OperatorProfile.1.SubscriptionParameters.EAPProfile.1.Realm" .string 0 256,
   .single .autocm .autocmWmAutoCon
    "InternetGatewayDevice.X_WIMAXFORUM_OperatorProfile.1.SubscriptionParameters.AutoConnection.WMAutoConEnable" .bool 0 1,
   .single .autocm .autocmNspFindWt
    "InternetGatewayDevice.X_WIMAXFORUM_OperatorProfile.1.SubscriptionParameters.AutoConnection.NSPFindWT" .unsigned 1 3600,
   .single .autocm .autocmConPolicy
    "InternetGatewayDevice.X_WIMAXFORUM_OperatorProfile.1.SubscriptionParameters.AutoConnection.ConPolicy" .string 0 256,
   .single .autocm .autocmSelectPolicy
    "InternetGatewayDevice.X_WIMAXFORUM_OperatorProfile.1.SubscriptionParameters.AutoConnection.SelectPolicy" .string 0 256,
   .single .autocm .autocmFailDelayTime
    "InternetGatewayDevice.X_WIMAXFORUM_OperatorProfile.1.SubscriptionParameters.AutoConnection.FailDelayTime" .unsigned 1 3600,
   .single .autocm .autocmMaxFailCnt
    "InternetGatewayDevice.X_WIMAXFORUM_OperatorProfile.1.SubscriptionParameters.AutoConnection.MaxFailCnt" .unsigned 1 100,
   .single .autocm .autocmMaxFailDelayTime
    "InternetGatewayDevice.X_WIMAXFORUM_OperatorProfile.1.SubscriptionParameters.AutoConnection.MaxFailDelayTime" .unsigned 1 3600,
   .single .autocm .autocmDhcpcdAutoStart
    "InternetGatewayDevice.X_WIMAXFORUM_OperatorProfile.1.SubscriptionParameters.AutoConnection.DhcpdAutoStartEnable" .bool 0 1,
   .single .autocm .autocmMngDhcpcdAutoStart
    "InternetGatewayDevice.X_WIMAXFORUM_OperatorProfile.1.SubscriptionParameters.AutoConnection.ManagementDhcpdAutoStartEnable" .bool 0 1,
   .single .autocm .autocmIpAllocWt
    "InternetGatewayDevice.X_WIMAXFORUM_OperatorProfile.1.SubscriptionParameters.AutoConnection.IPAllocWT" .unsigned 1 3600,
   .single .autocm .autocmGwPingCheck
    "InternetGatewayDevice.X_WIMAXFORUM_OperatorProfile.1.SubscriptionParameters.AutoConnection.GWPingCheck" .bool 0 1,
   .single .autocm .autocmPingWt
    "InternetGatewayDevice.X_WIMAXFORUM_OperatorProfile.1.SubscriptionParameters.AutoConnection.PingWT" .unsigned 1 3600,
   .single .autocm .autocmPingRCnt
    "InternetGatewayDevice.X_WIMAXFORUM_OperatorProfile.1.SubscriptionParameters.AutoConnection.PingReplyCnt" .unsigned 1 3600,
   .single .ddns .ddnsProvider "InternetGatewayDevice.X_GCT_AppCfg.DDNS.Provider" .string 0 256,
   .single .ddns .ddnsHostname "InternetGatewayDevice.X_GCT_AppCfg.DDNS.HostName" .string 0 256,
   .single .ddns .ddnsUsername "InternetGatewayDevice.X_GCT_AppCfg.DDNS.UserName" .string 0 256,
   .single .ddns .ddnsPassword "InternetGatewayDevice.X_GCT_AppCfg.DDNS.Password" .string 0 256,
   .single .ddns .ddnsUpdateperiod "InternetGatewayDevice.X_GCT_AppCfg.DDNS.UpdatePeriod" .unsigned 0 2419200,
   .single .log .logStatus "InternetGatewayDevice.X_GCT_AppCfg.Log.Status" .bool 0 1,
   .single .log .logLevel "InternetGatewayDevice.X_GCT_AppCfg.Log.Level" .string 0 256,
   .single .log .logMode "InternetGatewayDevice.X_GCT_AppCfg.Log.Mode" .string 0 256,
   .single .log .logServerIp "InternetGatewayDevice.X_GCT_AppCfg.Log.ServerIP" .string 0 256,
   .single .log .logServerPort "InternetGatewayDevice.X_GCT_AppCfg.Log.ServerPort" .unsigned 0 65535,
   .single .igmpProxy .igmpStatus "InternetGatewayDevice.X_GCT_AppCfg.IGMP.Status" .bool 0 1,
   .instances .portForward maxNumOfPortforwardInstance
    "InternetGatewayDevice.WANDevice.1.WANConnectionDevice.1.WANIPConnection.1.PortMapping.",
   .column .portForward maxNumOfPortforwardInstance .portforwardName
    "InternetGatewayDevice.WANDevice.1.WANConnectionDevice.1.WANIPConnection.1.PortMapping.0.X_GCT_Name" .string 0 32,
   .column .portForward maxNumOfPortforwardInstance .portforwardProtocol
    "InternetGatewayDevice.WANDevice.1.WANConnectionDevice.1.WANIPConnection.1.PortMapping.0.PortMappingProtocol" .string 0 16,
   .column .portForward maxNumOfPortforwardInstance .portforwardStartIncomingPort
    "InternetGatewayDevice.WANDevice.1.WANConnectionDevice.1.WANIPConnection.1.PortMapping.0.ExternalPort" .unsigned 0 65535,
   .column .portForward maxNumOfPortforwardInstance .portforwardEndIncomingPort
    "InternetGatewayDevice.WANDevice.1.WANConnectionDevice.1.WANIPConnection.1.PortMapping.0.X_GCT_ExternalEndPort" .unsigned 0 65535,
   .column .portForward maxNumOfPortforwardInstance .portforwardStartForwardPort
    "InternetGatewayDevice.WANDevice.1.WANConnectionDevice.1.WANIPConnection.1.PortMapping.0.InternalPort" .unsigned 0 65535,
   .column .portForward maxNumOfPortforwardInstance .portforwardEndForwardPort
    "InternetGatewayDevice.WANDevice.1.WANConnectionDevice.1.WANIPConnection.1.PortMapping.0.X_GCT_InternalEndPort" .unsigned 0 65535,
   .column .portForward maxNumOfPortforwardInstance .portforwardServerIp
    "InternetGatewayDevice.WANDevice.1.WANConnectionDevice.1.WANIPConnection.1.PortMapping.0.RemoteHost" .string 0 16,
   .instances .account maxNumOfRuleInstance "InternetGatewayDevice.X_GCT_AppCfg.Account.",
   .column .account maxNumOfRuleInstance .accountCname "InternetGatewayDevice.X_GCT_AppCfg.Account.0.CName" .string 0 265,
   .column .account maxNumOfRuleInstance .accountCpassword "InternetGatewayDevice.X_GCT_AppCfg.Account.0.CPassword" .string 0 265,
   .column .account maxNumOfRuleInstance .accountCuid "InternetGatewayDevice.X_GCT_AppCfg.Account.0.CUID" .string 0 265,
   .column .account maxNumOfRuleInstance .accountCgid "InternetGatewayDevice.X_GCT_AppCfg.Account.0.CGID" .string 0 265,
   .instances .firewall maxNumOfRuleInstance "InternetGatewayDevice.X_GCT_FireWallRule.",
   .column .firewall maxNumOfRuleInstance .firewallSrcip "InternetGatewayDevice.X_GCT_FireWallRule.0.SrcIp" .string 0 32,
   .column .firewall maxNumOfRuleInstance .firewallSrcmask "InternetGatewayDevice.X_GCT_FireWallRule.0.SrcMaskBit" .string 0 32,
   .column .firewall maxNumOfRuleInstance .firewallSrcport "InternetGatewayDevice.X_GCT_FireWallRule.0.SrcPort" .unsigned 0 65535,
   .column .firewall maxNumOfRuleInstance .firewallDstip "InternetGatewayDevice.X_GCT_FireWallRule.0.DestIp" .string 0 32,
   .column .firewall maxNumOfRuleInstance .firewallDstmask "InternetGatewayDevice.X_GCT_FireWallRule.0.DestMaskBit" .string 0 32,
   .column .firewall maxNumOfRuleInstance .firewallDstport "InternetGatewayDevice.X_GCT_FireWallRule.0.DestPort" .unsigned 0 65535,
   .column .firewall maxNumOfRuleInstance .firewallProtocol "InternetGatewayDevice.X_GCT_FireWallRule.0.Protocal" .string 0 32,
   .instances .route maxNumOfRouteInstance "InternetGatewayDevice.Layer3Forwarding.Forwarding.",
   .column .route maxNumOfRuleInstance .routeDstip "InternetGatewayDevice.Layer3Forwarding.Forwarding.0.DestIPAddress" .string 0 32,
   .column .route maxNumOfRuleInstance .routeMask "InternetGatewayDevice.Layer3Forwarding.Forwarding.0.DestSubnetMask" .string 0 32,
   .column .route maxNumOfRuleInstance .routeNexthoptype "InternetGatewayDevice.Layer3Forwarding.Forwarding.0.X_GCT_NextHopType" .bool 0 1,
   .column .route maxNumOfRuleInstance .routeNexthoptypeinterface
    "InternetGatewayDevice.Layer3Forwarding.Forwarding.0.X_GCT_NextHopIntf" .string 0 32,
   .column .route maxNumOfRuleInstance .routeNexthoptypeip
    "InternetGatewayDevice.Layer3Forwarding.Forwarding.0.X_GCT_NextHopIp" .string 0 32,
   .column .route maxNumOfRuleInstance .routeMetric "InternetGatewayDevice.Layer3Forwarding.Forwarding.0.ForwardingMetric" .int (-1) 65535,
   .instances .ipControl maxNumOfRouteInstance "InternetGatewayDevice.X_GCT_AccessServiceCfg.AccessHostCfg.",
   .column .ipControl maxNumOfRuleInstance .ipcontrolAddress
    "InternetGatewayDevice.X_GCT_AccessServiceCfg.AccessHostCfg.0.ControlIp" .string 0 32,
   .column .ipControl maxNumOfRuleInstance .ipcontrolNetmask
    "InternetGatewayDevice.X_GCT_AccessServiceCfg.AccessHostCfg.0.ControlMask" .string 0 32,
   .instances .channelPlan maxNumOfRouteInstance "InternetGatewayDevice.X_WIMAXFORUM_OperatorProfile.1.WiMAXNetworkParameters.ChannelPlan.",
   .column .channelPlan maxNumOfRuleInstance .channelplanFreqfirst
    "InternetGatewayDevice.X_WIMAXFORUM_OperatorProfile.1.WiMAXNetworkParameters.ChannelPlan.0.FirstFrequency" .string 0 256,
   .column .channelPlan maxNumOfRuleInstance .channelplanFreqlast
    "InternetGatewayDevice.X_WIMAXFORUM_OperatorProfile.1.WiMAXNetworkParameters.ChannelPlan.0.LastFrequency" .string 0 256,
   .column .channelPlan maxNumOfRuleInstance .channelplanNextstep
    "InternetGatewayDevice.X_WIMAXFORUM_OperatorProfile.1.WiMAXNetworkParameters.ChannelPlan.0.NextFrequencyStep" .unsigned 0 65535,
   .column .channelPlan maxNumOfRuleInstance .channelplanPreambles
    "InternetGatewayDevice.X_WIMAXFORUM_OperatorProfile.1.WiMAXNetworkParameters.ChannelPlan.0.Preambles" .string 0 29,
   .column .channelPlan maxNumOfRuleInstance .channelplanBandwidth
    "InternetGatewayDevice.X_WIMAXFORUM_OperatorProfile.1.WiMAXNetworkParameters.ChannelPlan.0.Bandwidth" .unsigned 0 65535,
   .column .channelPlan maxNumOfRuleInstance .channelplanFft
    "InternetGatewayDevice.X_WIMAXFORUM_OperatorProfile.1.WiMAXNetworkParameters.ChannelPlan.0.FFTSize" .unsigned 0 65535,
   .column .channelPlan maxNumOfRuleInstance .channelplanDuplexmode
    "InternetGatewayDevice.X_WIMAXFORUM_OperatorProfile.1.WiMAXNetworkParameters.ChannelPlan.0.DuplexMode" .unsigned 0 65535,
   .instances .hnsp maxNumOfRouteInstance
    "InternetGatewayDevice.X_WIMAXFORUM_OperatorProfile.1.WiMAXNetworkParameters.HomeNetworkServiceProvider.",
   .column .hnsp maxNumOfRuleInstance .hnspId
    "InternetGatewayDevice.X_WIMAXFORUM_OperatorProfile.1.WiMAXNetworkParameters.HomeNetworkServiceProvider.0.HNSPIdentifier" .string 0 32,
   ⟨.app .capl, .flagNoRow, .para .appCaplSelPolicy,
    "InternetGatewayDevice.X_WIMAXFORUM_OperatorProfile.1.WiMAXNetworkParameters.CAPL.NetworkSelectionPolicy",
    .unsigned, maxNumOfPortforwardInstance, 0, 3⟩,
   .instances .capl maxNumOfRouteInstance "InternetGatewayDevice.X_WIMAXFORUM_OperatorProfile.1.WiMAXNetworkParameters.CAPL.CAP.",
   .column .capl maxNumOfRuleInstance .tabCaplId
    "InternetGatewayDevice.X_WIMAXFORUM_OperatorProfile.1.WiMAXNetworkParameters.CAPL.CAP.0.NAPIdentifier" .string 0 256,
   .column .capl maxNumOfRuleInstance .tabCaplPriority
    "InternetGatewayDevice.X_WIMAXFORUM_OperatorProfile.1.WiMAXNetworkParameters.CAPL.CAP.0.NetworkSelectionPriority" .unsigned 0 65535,
   ⟨.app .rapl, .flagNoRow, .para .appRaplSelPolicy,
    "InternetGatewayDevice.X_WIMAXFORUM_OperatorProfile.1.WiMAXNetworkParameters.RAPL.NetworkSelectionPolicy",
    .unsigned, maxNumOfPortforwardInstance, 0, 3⟩,
   .instances .rapl maxNumOfRouteInstance "InternetGatewayDevice.X_WIMAXFORUM_OperatorProfile.1.WiMAXNetworkParameters.RAPL.RAP.",
   .column .rapl maxNumOfRuleInstance .tabRaplId
    "InternetGatewayDevice.X_WIMAXFORUM_OperatorProfile.1.WiMAXNetworkParameters.RAPL.RAP.0.VNSPIdentifier" .string 0 256,
   .column .rapl maxNumOfRuleInstance .tabRaplPriority
    "InternetGatewayDevice.X_WIMAXFORUM_OperatorProfile.1.WiMAXNetworkParameters.RAPL.RAP.0.NetworkSelectionPriority" .unsigned 0 65535]

end CodeFactory.Tcm
